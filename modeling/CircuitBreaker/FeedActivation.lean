import Mathlib.Data.List.Nodup
import CircuitBreaker.StepRuns

/-! Synchronising the vulnerability feed (cve_service.sync_nvd_feed, intelligence/cve_feed.py): any
number of syncs page through the feed, each into a generation of its own, and the last one that is
complete is the one assessments read. -/

namespace CircuitBreaker.FeedActivation
open StepRuns List

variable {R : Type}

inductive Status where
  | running | complete | incomplete | failed

structure Generation (R : Type) where
  status : Status := .running
  completedAt : Int := 0
  totalRecords : Int := 0
  recordsSeen : Nat := 0
  recordsStored : Nat := 0
  parseFailures : Nat := 0
  coverageComplete : Bool := false
  safeError : String := ""
  records : List (String × R) := []

/-- A record as the feed sends it: its id, none where that is no text, and what its other fields
come to; reading them can raise. -/
structure RawRecord (R : Type) where
  id : Option String
  fields : Option R

def parseNvdRecord (raw : RawRecord R) : Option (Option (String × R)) :=
  match raw.id with
  | none => some none
  | some id => if id = "" then some none else raw.fields.map fun row => some (id,row)

def upsert (records : List (String × R)) (id : String) (row : R) : List (String × R) :=
  if id ∈ records.map Prod.fst then records.map fun x => if x.1 = id then (id,row) else x
  else records++[(id,row)]

def ingestRecord (g : Generation R) (raw : RawRecord R) : Option (Generation R) :=
  match parseNvdRecord raw with
  | none => none
  | some none => some {g with parseFailures := g.parseFailures+1}
  | some (some (id,row)) => some { g with
      records := upsert g.records id row
      recordsStored := g.recordsStored+1 }

def ingestFeedPage (g : Generation R) (records : List (RawRecord R)) : Option (Generation R) :=
  (records.foldlM ingestRecord g).map fun g => {g with recordsSeen := g.recordsSeen+records.length}

def completeFeedGeneration (g : Generation R) (totalRecords now : Int) : Generation R :=
  let covered := decide (totalRecords > 0 ∧ (g.recordsSeen : Int) ≥ totalRecords ∧ g.parseFailures = 0)
  { g with
    totalRecords := totalRecords
    completedAt := now
    coverageComplete := covered
    status := if covered then .complete else .incomplete }

def failFeedGeneration (g : Generation R) (now : Int) : Generation R :=
  { g with
    status := .failed
    completedAt := now
    coverageComplete := false
    safeError := "The vulnerability feed could not be refreshed." }

def Generation.Complete (g : Generation R) : Prop := g.status = .complete ∧ g.coverageComplete = true

def startFeedGeneration : Generation R := {status := .running}

/-- What `active_feed_generation` may return: of two that were completed at one time the database
gives either. -/
def Active (generations : List (Generation R)) (i : Nat) : Prop :=
  ∃ g, generations[i]? = some g ∧ g.Complete ∧
    ∀ (j : Nat) (h : Generation R), generations[j]? = some h → h.Complete →
      h.completedAt ≤ g.completedAt

def pageSize : Nat := 200

inductive Phase where
  | idle
  | paging (g start : Nat)
  | upserting (g start : Nat) (declared : Int)
  | completing (g : Nat) (declared : Int)
  | recording (g : Nat)
  | failing (g : Nat)
  | done (g : Nat)
  | failed (g : Nat)
  | crashed (g : Nat)

def Phase.working : Phase → Option Nat
  | .paging g _ => some g
  | .upserting g _ _ => some g
  | .completing g _ => some g
  | .recording g => some g
  | _ => none

structure World (R : Type) where
  generations : List (Generation R)
  phase : Nat → Phase

def World.to (w : World R) (k : Nat) (p : Phase) : World R :=
  {w with phase := Function.update w.phase k p}

def World.store (w : World R) (i : Nat) (g : Generation R) : World R :=
  {w with generations := w.generations.set i g}

inductive Act (R : Type) where
  | start (k : Nat)
  | fetch (k : Nat) (page : List (RawRecord R)) (declared : Int)
  | upsertEntries (k : Nat)
  | complete (k : Nat) (now : Int)
  | record (k : Nat)
  | exception (k : Nat)
  | fail (k : Nat) (now : Int)
  | failUnsaved (k : Nat)
  | crash (k : Nat)

inductive Step : World R → Act R → World R → Prop where
  | start {w : World R} (k : Nat) (h : w.phase k = .idle) :
      Step w (.start k) (World.to ⟨w.generations++[startFeedGeneration],w.phase⟩ k (.paging w.generations.length 0))
  | empty {w : World R} (k : Nat) (declared : Int) {g start : Nat} (h : w.phase k = .paging g start) :
      Step w (.fetch k [] declared) (w.to k (.completing g declared))
  | ingest {w : World R} (k : Nat) (page : List (RawRecord R)) (declared : Int) {i start : Nat}
      {g g' : Generation R} (h : w.phase k = .paging i start) (some_ : page ≠ [])
      (hg : w.generations[i]? = some g) (hi : ingestFeedPage g page = some g') :
      Step w (.fetch k page declared) ((w.store i g').to k (.upserting i start declared))
  | upsertEntries {w : World R} (k : Nat) {g start : Nat} {declared : Int}
      (h : w.phase k = .upserting g start declared) :
      Step w (.upsertEntries k) (w.to k (if ((start+pageSize : Nat) : Int) ≥ declared
        then .completing g declared else .paging g (start+pageSize)))
  | complete {w : World R} (k : Nat) (now : Int) {i : Nat} {declared : Int} {g : Generation R}
      (h : w.phase k = .completing i declared) (hg : w.generations[i]? = some g)
      (covered : (completeFeedGeneration g declared now).status = .complete) :
      Step w (.complete k now) ((w.store i (completeFeedGeneration g declared now)).to k (.recording i))
  | incomplete {w : World R} (k : Nat) (now : Int) {i : Nat} {declared : Int} {g : Generation R}
      (h : w.phase k = .completing i declared) (hg : w.generations[i]? = some g)
      (partial_ : (completeFeedGeneration g declared now).status ≠ .complete) :
      Step w (.complete k now) (w.to k (.failing i))
  | record {w : World R} (k : Nat) {g : Nat} (h : w.phase k = .recording g) :
      Step w (.record k) (w.to k (.done g))
  | exception {w : World R} (k : Nat) {g : Nat} (h : (w.phase k).working = some g) :
      Step w (.exception k) (w.to k (.failing g))
  | fail {w : World R} (k : Nat) (now : Int) {i : Nat} {g : Generation R}
      (h : w.phase k = .failing i) (hg : w.generations[i]? = some g) (running : g.status = .running) :
      Step w (.fail k now) ((w.store i (failFeedGeneration g now)).to k (.failed i))
  | failEnded {w : World R} (k : Nat) (now : Int) {i : Nat} {g : Generation R}
      (h : w.phase k = .failing i) (hg : w.generations[i]? = some g) (ended : g.status ≠ .running) :
      Step w (.fail k now) (w.to k (.failed i))
  | failUnsaved {w : World R} (k : Nat) {g : Nat} (h : w.phase k = .failing g) :
      Step w (.failUnsaved k) (w.to k (.failed g))
  | crash {w : World R} (k : Nat) {g : Nat}
      (h : (w.phase k).working = some g ∨ w.phase k = .failing g) :
      Step w (.crash k) (w.to k (.crashed g))

/-! The law, and where it holds. -/

def parsedIds (page : List (RawRecord R)) : List String :=
  page.filterMap fun raw => ((parseNvdRecord raw).getD none).map Prod.fst

/-- The active generation stores as many records as the feed last declared, each of them parsed;
and a sync that failed or crashed has not put its own in place. -/
structure ActivationLaw (w : World R) : Prop where
  covered : ∀ i g, Active w.generations i → w.generations[i]? = some g →
    (g.records.map Prod.fst).Nodup ∧ g.totalRecords ≤ g.records.length ∧ g.parseFailures = 0
  spared : ∀ k i, w.phase k = .failed i ∨ w.phase k = .crashed i → ¬Active w.generations i

/-- No record is sent twice during a sync, and none is struck between the commit of its completed
generation and its end. -/
def Meets (w : World R) : Act R → Prop
  | .fetch k page _ => ∀ i start g, w.phase k = .paging i start → w.generations[i]? = some g →
      (parsedIds page).Nodup ∧ ∀ id ∈ parsedIds page, id ∉ g.records.map Prod.fst
  | .exception k => ∀ g, w.phase k ≠ .recording g
  | .crash k => ∀ g, w.phase k ≠ .recording g
  | _ => True

def Phase.generation : Phase → Option Nat
  | .idle => none
  | .paging g _ => some g
  | .upserting g _ _ => some g
  | .completing g _ => some g
  | .recording g => some g
  | .failing g => some g
  | .done g => some g
  | .failed g => some g
  | .crashed g => some g

def Phase.Finished : Phase → Prop
  | .recording _ => True
  | .done _ => True
  | _ => False

structure Counted (g : Generation R) : Prop where
  nodup : (g.records.map Prod.fst).Nodup
  seen : g.recordsSeen = g.records.length+g.parseFailures
  complete : g.Complete → g.totalRecords ≤ g.records.length ∧ g.parseFailures = 0

structure Sound (w : World R) : Prop where
  counted : ∀ (i : Nat) (g : Generation R), w.generations[i]? = some g → Counted g
  owned : ∀ k i, (w.phase k).generation = some i → i < w.generations.length
  apart : ∀ j k i, (w.phase j).generation = some i → (w.phase k).generation = some i → j = k
  unfinished : ∀ (k i : Nat) (g : Generation R), (w.phase k).generation = some i →
    ¬(w.phase k).Finished → w.generations[i]? = some g → ¬g.Complete

theorem fresh_sound : Sound (⟨[],fun _ => .idle⟩ : World R) :=
  ⟨by simp,by simp [Phase.generation],by simp [Phase.generation],by simp [Phase.generation]⟩

theorem Sound.law {w : World R} (h : Sound w) : ActivationLaw w := by
  constructor
  · intro i g active hg
    obtain ⟨g',hg',complete,-⟩ := active
    cases hg.symm.trans hg'
    exact ⟨(h.counted i g hg).nodup,(h.counted i g hg).complete complete⟩
  · intro k i ended active
    obtain ⟨g,hg,complete,-⟩ := active
    rcases ended with ended | ended
    · exact h.unfinished k i g (by rw [ended]; rfl) (by rw [ended]; exact id) hg complete
    · exact h.unfinished k i g (by rw [ended]; rfl) (by rw [ended]; exact id) hg complete

/-! One page. -/

theorem upsert_fresh {records : List (String × R)} {id : String} (h : id ∉ records.map Prod.fst)
    (row : R) : upsert records id row = records++[(id,row)] := if_neg h

structure Ingested (g g' : Generation R) : Prop where
  status : g'.status = g.status
  coverage : g'.coverageComplete = g.coverageComplete
  total : g'.totalRecords = g.totalRecords

theorem ingestRecord_ingested {g g' : Generation R} {raw : RawRecord R}
    (h : ingestRecord g raw = some g') : Ingested g g' ∧ g'.recordsSeen = g.recordsSeen := by
  unfold ingestRecord at h
  split at h
  · cases h
  · cases h
    exact ⟨⟨rfl,rfl,rfl⟩,rfl⟩
  · cases h
    exact ⟨⟨rfl,rfl,rfl⟩,rfl⟩

theorem foldlM_ingested {page : List (RawRecord R)} {g g' : Generation R}
    (h : page.foldlM ingestRecord g = some g') : Ingested g g' ∧ g'.recordsSeen = g.recordsSeen := by
  induction page generalizing g with
  | nil =>
    cases h
    exact ⟨⟨rfl,rfl,rfl⟩,rfl⟩
  | cons raw page ih =>
    rw [foldlM_cons] at h
    obtain ⟨m,hm,h⟩ := Option.bind_eq_some_iff.mp h
    obtain ⟨first,seen⟩ := ingestRecord_ingested hm
    obtain ⟨rest,seen'⟩ := ih h
    exact ⟨⟨rest.status.trans first.status,rest.coverage.trans first.coverage,
      rest.total.trans first.total⟩,seen'.trans seen⟩

theorem foldlM_counts {page : List (RawRecord R)} {g g' : Generation R}
    (h : page.foldlM ingestRecord g = some g')
    (fresh : (g.records.map Prod.fst++parsedIds page).Nodup) :
    g'.records.map Prod.fst = g.records.map Prod.fst++parsedIds page ∧
      g'.records.length+g'.parseFailures = g.records.length+g.parseFailures+page.length := by
  induction page generalizing g with
  | nil =>
    cases h
    simp [parsedIds]
  | cons raw page ih =>
    rw [foldlM_cons] at h
    obtain ⟨m,hm,h⟩ := Option.bind_eq_some_iff.mp h
    unfold ingestRecord at hm
    cases hp : parseNvdRecord raw with
    | none => simp [hp] at hm
    | some parsed =>
      cases parsed with
      | none =>
        simp only [hp,Option.some.injEq] at hm
        subst hm
        have ids : parsedIds (raw :: page) = parsedIds page := by simp [parsedIds,hp]
        rw [ids] at fresh ⊢
        obtain ⟨records,count⟩ := ih h fresh
        refine ⟨records,?_⟩
        simp only [length_cons] at count ⊢
        omega
      | some entry =>
        obtain ⟨id,row⟩ := entry
        simp only [hp,Option.some.injEq] at hm
        subst hm
        have ids : parsedIds (raw :: page) = id :: parsedIds page := by simp [parsedIds,hp]
        rw [ids] at fresh ⊢
        have new : id ∉ g.records.map Prod.fst := by
          intro mem
          exact (nodup_append.mp fresh).2.2 id mem id mem_cons_self rfl
        simp only [upsert_fresh new] at h
        obtain ⟨records,count⟩ := ih h (by simpa using fresh)
        refine ⟨by simpa using records,?_⟩
        simp only [length_append,length_cons,length_nil] at count ⊢
        omega

theorem Counted.ingest {g g' : Generation R} {page : List (RawRecord R)} (h : Counted g)
    (hi : ingestFeedPage g page = some g') (nodup : (parsedIds page).Nodup)
    (fresh : ∀ id ∈ parsedIds page, id ∉ g.records.map Prod.fst) (open_ : ¬g.Complete) :
    Counted g' ∧ ¬g'.Complete := by
  obtain ⟨m,hm,rfl⟩ := Option.map_eq_some_iff.mp hi
  have all : (g.records.map Prod.fst++parsedIds page).Nodup := by
    refine nodup_append.mpr ⟨h.nodup,nodup,?_⟩
    rintro a ha b hb rfl
    exact fresh a hb ha
  obtain ⟨records,count⟩ := foldlM_counts hm all
  obtain ⟨same,seen⟩ := foldlM_ingested hm
  have incomplete : ¬({m with recordsSeen := m.recordsSeen+page.length} : Generation R).Complete := by
    intro complete
    exact open_ ⟨same.status.symm.trans complete.1,same.coverage.symm.trans complete.2⟩
  refine ⟨⟨?_,?_,fun complete => absurd complete incomplete⟩,incomplete⟩
  · simp only [records]
    exact all
  · have := h.seen
    simp only [seen]
    omega

/-! Steps. -/

section
variable {w w' : World R} {k i : Nat} {p : Phase}

@[simp] theorem World.to_generations (w : World R) (k : Nat) (p : Phase) :
    (w.to k p).generations = w.generations := rfl

@[simp] theorem World.to_phase (w : World R) (k : Nat) (p : Phase) : (w.to k p).phase k = p := by
  simp [World.to]

theorem World.to_phase_other (w : World R) {j k : Nat} (p : Phase) (h : j ≠ k) :
    (w.to k p).phase j = w.phase j := by
  simp [World.to,h]

theorem store_same {g : Generation R} (hg : w.generations[i]? = some g) : w.store i g = w := by
  obtain ⟨_,rfl⟩ := List.getElem?_eq_some_iff.mp hg
  simp [World.store]

theorem set_getElem {generations : List (Generation R)} {g g' : Generation R} {j : Nat}
    (h : (generations.set i g)[j]? = some g') : j = i ∧ g' = g ∨ j ≠ i ∧ generations[j]? = some g' := by
  by_cases same : j = i
  · subst same
    rw [List.getElem?_set_self'] at h
    obtain ⟨_,-,rfl⟩ := Option.map_eq_some_iff.mp h
    exact .inl ⟨rfl,rfl⟩
  · rw [List.getElem?_set_ne (Ne.symm same)] at h
    exact .inr ⟨same,h⟩

theorem Sound.advance (h : Sound w) {g' : Generation R} (hk : (w.phase k).generation = some i)
    (hp : p.generation = some i) (counted : Counted g') (ends : ¬p.Finished → ¬g'.Complete) :
    Sound ((w.store i g').to k p) := by
  have gens : ((w.store i g').to k p).generations = w.generations.set i g' := rfl
  have own (j a : Nat) (hj : (((w.store i g').to k p).phase j).generation = some a) :
      (w.phase j).generation = some a := by
    by_cases same : j = k
    · subst same
      rw [World.to_phase,hp] at hj
      cases hj
      exact hk
    · rwa [World.to_phase_other _ _ same] at hj
  constructor
  · intro j g hg
    rw [gens] at hg
    rcases set_getElem hg with ⟨-,rfl⟩ | ⟨-,hg⟩
    · exact counted
    · exact h.counted j g hg
  · intro j a hj
    rw [gens,length_set]
    exact h.owned j a (own j a hj)
  · intro j l a hj hl
    exact h.apart j l a (own j a hj) (own l a hl)
  · intro j a g hj open_ hg
    rw [gens] at hg
    by_cases same : j = k
    · subst same
      rw [World.to_phase] at hj open_
      rw [hp] at hj
      cases hj
      rcases set_getElem hg with ⟨-,rfl⟩ | ⟨other,-⟩
      · exact ends open_
      · exact absurd rfl other
    · have mine := own j a hj
      rcases set_getElem hg with ⟨rfl,-⟩ | ⟨-,hg⟩
      · exact absurd (h.apart j k a mine hk) same
      · rw [World.to_phase_other _ _ same] at open_
        exact h.unfinished j a g mine open_ hg

theorem Sound.move (h : Sound w) (hk : (w.phase k).generation = some i) (hp : p.generation = some i)
    (ends : ¬p.Finished → ¬(w.phase k).Finished) : Sound (w.to k p) := by
  have bound := h.owned k i hk
  have hg : w.generations[i]? = some w.generations[i] := List.getElem?_eq_getElem bound
  have step := h.advance hk hp (h.counted i _ hg) fun open_ =>
    h.unfinished k i _ hk (ends open_) hg
  rwa [store_same hg] at step

theorem Sound.start (h : Sound w) (hk : w.phase k = .idle) :
    Sound (World.to ⟨w.generations++[startFeedGeneration],w.phase⟩ k
      (.paging w.generations.length 0)) := by
  have new : ¬(startFeedGeneration : Generation R).Complete := nofun
  have old (j a : Nat) (hj : ((World.to ⟨w.generations++[startFeedGeneration],w.phase⟩ k
      (.paging w.generations.length 0)).phase j).generation = some a) :
      (j = k ∧ a = w.generations.length) ∨ j ≠ k ∧ (w.phase j).generation = some a := by
    by_cases same : j = k
    · subst same
      rw [World.to_phase] at hj
      exact .inl ⟨rfl,(Option.some.inj hj).symm⟩
    · rw [World.to_phase_other _ _ same] at hj
      exact .inr ⟨same,hj⟩
  have row {j : Nat} {g : Generation R}
      (hg : (w.generations++[startFeedGeneration])[j]? = some g) :
      w.generations[j]? = some g ∨ g = startFeedGeneration := by
    by_cases bound : j < w.generations.length
    · rw [List.getElem?_append_left bound] at hg
      exact .inl hg
    · rw [List.getElem?_append_right (Nat.le_of_not_lt bound)] at hg
      exact .inr (mem_singleton.mp (mem_of_getElem? hg))
  constructor
  · intro j g hg
    rcases row hg with hg | rfl
    · exact h.counted j g hg
    · exact ⟨nodup_nil,rfl,fun complete => absurd complete new⟩
  · intro j a hj
    simp only [World.to_generations,length_append,length_singleton]
    rcases old j a hj with ⟨-,rfl⟩ | ⟨-,hj⟩
    · omega
    · have := h.owned j a hj
      omega
  · intro j l a hj hl
    rcases old j a hj with ⟨rfl,new_⟩ | ⟨-,mine⟩
    · rcases old l a hl with ⟨rfl,-⟩ | ⟨-,theirs⟩
      · rfl
      · exact absurd (h.owned l a theirs) (new_ ▸ Nat.lt_irrefl _)
    · rcases old l a hl with ⟨-,new_⟩ | ⟨-,theirs⟩
      · exact absurd (h.owned j a mine) (new_ ▸ Nat.lt_irrefl _)
      · exact h.apart j l a mine theirs
  · intro j a g hj open_ hg
    rcases row hg with hg | rfl
    · rcases old j a hj with ⟨-,rfl⟩ | ⟨other,hj⟩
      · rw [List.getElem?_eq_none (Nat.le_refl _)] at hg
        cases hg
      · rw [World.to_phase_other _ _ other] at open_
        exact h.unfinished j a g hj open_ hg
    · exact new

theorem working_generation {p : Phase} {g : Nat} (h : p.working = some g) :
    p.generation = some g ∧ ((∀ g, p ≠ .recording g) → ¬p.Finished) := by
  cases p with
  | recording a => exact ⟨h,fun other => absurd rfl (other a)⟩
  | paging | upserting | completing => exact ⟨h,fun _ => id⟩
  | idle | failing | done | failed | crashed => cases h

theorem step_sound {act : Act R} (h : Sound w) (hs : Guarded Step Meets w act w') : Sound w' := by
  obtain ⟨meets,hs⟩ := hs
  cases hs with
  | start k hk => exact h.start hk
  | empty k declared hk | incomplete k now hk hg _ | failEnded k now hk hg ended
  | failUnsaved k hk => exact h.move (by rw [hk]; rfl) rfl fun _ => by rw [hk]; exact id
  | @ingest k page declared i start g g' hk some_ hg hi =>
    have own : (w.phase k).generation = some i := by rw [hk]; rfl
    have open_ := h.unfinished k i g own (by rw [hk]; exact id) hg
    obtain ⟨nodup,fresh⟩ := meets i start g hk hg
    obtain ⟨counted,incomplete⟩ := (h.counted i g hg).ingest hi nodup fresh open_
    exact h.advance own rfl counted fun _ => incomplete
  | upsertEntries k hk =>
    refine h.move (i := _) (by rw [hk]; rfl) ?_ fun _ => by rw [hk]; exact id
    split <;> rfl
  | @complete k now i declared g hk hg covered =>
    refine h.advance (by rw [hk]; rfl) rfl ?_ fun open_ => absurd trivial open_
    have count := h.counted i g hg
    refine ⟨count.nodup,count.seen,fun complete => ?_⟩
    have covered : declared > 0 ∧ (g.recordsSeen : Int) ≥ declared ∧ g.parseFailures = 0 :=
      of_decide_eq_true complete.2
    refine ⟨?_,covered.2.2⟩
    have := count.seen
    simp only [completeFeedGeneration]
    omega
  | record k hk => exact h.move (by rw [hk]; rfl) rfl fun open_ => absurd trivial open_
  | exception k hk =>
    obtain ⟨own,open_⟩ := working_generation hk
    exact h.move own rfl fun _ => open_ meets
  | fail k now hk hg running =>
    refine h.advance (by rw [hk]; rfl) rfl ?_ fun _ => nofun
    exact ⟨(h.counted _ _ hg).nodup,(h.counted _ _ hg).seen,nofun⟩
  | crash k hk =>
    rcases hk with hk | hk
    · obtain ⟨own,open_⟩ := working_generation hk
      exact h.move own rfl fun _ => open_ meets
    · exact h.move (by rw [hk]; rfl) rfl fun _ => by rw [hk]; exact id

/-! The active generation. -/

def SameComplete (a b : List (Generation R)) : Prop :=
  ∀ (i : Nat) (g : Generation R), g.Complete → (a[i]? = some g ↔ b[i]? = some g)

theorem SameComplete.active_iff {a b : List (Generation R)} (h : SameComplete a b) (i : Nat) :
    Active a i ↔ Active b i := by
  refine exists_congr fun g => ⟨?_,?_⟩
  · rintro ⟨hg,complete,newest⟩
    exact ⟨(h i g complete).mp hg,complete,fun j x hx hc => newest j x ((h j x hc).mpr hx) hc⟩
  · rintro ⟨hg,complete,newest⟩
    exact ⟨(h i g complete).mpr hg,complete,fun j x hx hc => newest j x ((h j x hc).mp hx) hc⟩

theorem sameComplete_set {generations : List (Generation R)} {g g' : Generation R}
    (hg : generations[i]? = some g) (before : ¬g.Complete) (after : ¬g'.Complete) :
    SameComplete generations (generations.set i g') := by
  intro j x complete
  constructor
  · intro hx
    by_cases same : j = i
    · subst same
      cases hg.symm.trans hx
      exact absurd complete before
    · rwa [List.getElem?_set_ne (Ne.symm same)]
  · intro hx
    rcases set_getElem hx with ⟨-,rfl⟩ | ⟨-,hx⟩
    · exact absurd complete after
    · exact hx

theorem sameComplete_append (generations : List (Generation R)) {g : Generation R}
    (new : ¬g.Complete) : SameComplete generations (generations++[g]) := by
  intro j x complete
  by_cases bound : j < generations.length
  · rw [List.getElem?_append_left bound]
  · rw [List.getElem?_append_right (Nat.le_of_not_lt bound),
      List.getElem?_eq_none (Nat.le_of_not_lt bound)]
    constructor
    · exact nofun
    · intro hx
      rw [mem_singleton.mp (mem_of_getElem? hx)] at complete
      exact absurd complete new

theorem step_active {act : Act R} (h : Sound w) (hs : Step w act w')
    (other : ∀ k now, act ≠ .complete k now) (j : Nat) :
    Active w'.generations j ↔ Active w.generations j := by
  cases hs with
  | start k hk =>
    have new : ¬(startFeedGeneration : Generation R).Complete := nofun
    exact ((sameComplete_append _ new).active_iff j).symm
  | empty | upsertEntries | record | exception | failEnded | failUnsaved | crash => exact Iff.rfl
  | ingest k page declared hk some_ hg hi =>
    have before := h.unfinished k _ _ (by rw [hk]; rfl) (by rw [hk]; exact id) hg
    obtain ⟨m,hm,rfl⟩ := Option.map_eq_some_iff.mp hi
    obtain ⟨same,-⟩ := foldlM_ingested hm
    refine ((sameComplete_set hg before fun complete => before ?_).active_iff j).symm
    exact ⟨same.status.symm.trans complete.1,same.coverage.symm.trans complete.2⟩
  | complete k now | incomplete k now => exact absurd rfl (other k now)
  | @fail k now i g hk hg running =>
    have before := h.unfinished k i g (by rw [hk]; rfl) (by rw [hk]; exact id) hg
    have after : ¬(failFeedGeneration g now).Complete := nofun
    exact ((sameComplete_set hg before after).active_iff j).symm

end

/-- In every run of any number of syncs in which no record is sent twice to one of them, and none
is struck after the commit of its completed generation: the active generation is covered, no sync
that failed or crashed has replaced it, and nothing but such a commit does. -/
theorem activation_law {acts : List (Act R)} {w : World R}
    (run : Run (Guarded Step Meets) ⟨[],fun _ => .idle⟩ acts w) :
    ActivationLaw w ∧ ∀ act w', Step w act w' → (∀ k now, act ≠ .complete k now) →
      ∀ j, Active w'.generations j ↔ Active w.generations j := by
  have sound : Sound w := run.invariant (fun _ _ _ h hs => step_sound h hs) fresh_sound
  exact ⟨sound.law,fun act w' hs other j => step_active sound hs other j⟩

theorem active_single {g : Generation R} (complete : g.Complete) : Active [g] 0 := by
  refine ⟨g,rfl,complete,fun j x hx _ => Int.le_of_eq ?_⟩
  exact congrArg _ (mem_singleton.mp (mem_of_getElem? hx))

theorem activation_law_page : ∃ w : World Unit, Run (Guarded Step Meets) ⟨[],fun _ => .idle⟩
    [.start 0,.fetch 0 [⟨some "CVE-2026-1",some ()⟩,⟨some "CVE-2026-2",some ()⟩] 2,.upsertEntries 0,
      .complete 0 7] w ∧ Active w.generations 0 ∧ ActivationLaw w := by
  have started : Run (Guarded Step Meets) (⟨[],fun _ => .idle⟩ : World Unit) _ _ :=
    (Run.nil _).also (.start 0 rfl) trivial
  have paged := started.also (.ingest 0 [⟨some "CVE-2026-1",some ()⟩,⟨some "CVE-2026-2",some ()⟩] 2
    rfl nofun rfl rfl) (by
      intro i start g hk hg
      cases hk
      cases hg
      exact ⟨by decide,by decide⟩)
  have stored := paged.also (.upsertEntries 0 rfl) trivial
  have completed := stored.also (.complete 0 7 rfl rfl rfl) trivial
  exact ⟨_,completed,active_single ⟨rfl,rfl⟩,(activation_law completed).1⟩

/-- Two pages with one and the same record, the second with a total of two: the generation is
completed and active with one record. -/
theorem repeated_record_activates : ∃ (w : World Unit) (g : Generation Unit),
    Run Step ⟨[],fun _ => .idle⟩ [.start 0,.fetch 0 [⟨some "CVE-2026-1",some ()⟩] 201,.upsertEntries 0,
      .fetch 0 [⟨some "CVE-2026-1",some ()⟩] 2,.upsertEntries 0,.complete 0 7] w ∧
      Active w.generations 0 ∧ w.generations[0]? = some g ∧ g.totalRecords = 2 ∧
      g.records = [("CVE-2026-1",())] ∧ ¬ActivationLaw w := by
  have started : Run Step (⟨[],fun _ => .idle⟩ : World Unit) _ _ := (Run.nil _).snoc (.start 0 rfl)
  have first := started.snoc (.ingest 0 [⟨some "CVE-2026-1",some ()⟩] 201 rfl nofun rfl rfl)
  have next := first.snoc (.upsertEntries 0 rfl)
  have second := next.snoc (.ingest 0 [⟨some "CVE-2026-1",some ()⟩] 2 rfl nofun rfl rfl)
  have stored := second.snoc (.upsertEntries 0 rfl)
  have completed := stored.snoc (.complete 0 7 rfl rfl rfl)
  refine ⟨_,_,completed,active_single ⟨rfl,rfl⟩,rfl,rfl,rfl,fun law => ?_⟩
  have covered := (law.covered 0 _ (active_single ⟨rfl,rfl⟩) rfl).2.1
  exact absurd covered (by decide)

end CircuitBreaker.FeedActivation
