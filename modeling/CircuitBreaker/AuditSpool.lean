import CircuitBreaker.AuditRuns
import Mathlib.Data.List.Perm.Basic

/-! Deferred audit entries (services/audit_spool.py): every entry committed to
pending_audit_logs is waiting there or is one row of the chain, in every run of
writes, defers and drains in which a drain finds the rows it selected still pending
when it gets the chain lock. -/

namespace CircuitBreaker.Audit
open StepRuns List

def chained (db : Db) : List (LogFields DateTime) := db.logs.map (·.entry.fields)

def waiting (db : Db) : List (LogFields DateTime) := db.pending.filterMap fun r => decode r.payload

def Event.added : Event → List (LogFields DateTime)
  | .appended f | .deferred f => [f]
  | _ => []

def Txn.spools : Txn → Bool
  | .write _ | .defer _ | .drain _ => true
  | _ => false

def SpoolOnly (_ : World) : Event → Prop
  | .began t => t.spools
  | _ => True

def Undrained (w : World) : Event → Prop
  | .began t => t.spools
  | .chainLocked p => ∀ rows, w.txns p = .drainRead rows → ∀ r ∈ rows, r ∈ w.db.pending
  | _ => True

/-! ### What an open transaction knows -/

def Job.Plain (job : Job) : Prop := job.changed = [] ∧ job.repairing = false

def Distinct (rows : List PendingAuditLog) : Prop := (rows.map PendingAuditLog.id).Nodup

def Txn.Spooled (db : Db) : Txn → Prop
  | .done | .write _ | .defer _ | .drain _ => True
  | .writeLocked _ job | .writeTip _ job _ | .writeRead _ job _ | .writeInserted job _ => job.Plain
  | .deferInserted f row =>
      row.payload = encode f ∧ row.id < db.nextPendingId ∧ ∀ r ∈ db.pending, r.id ≠ row.id
  | .drainRead rows => Distinct rows
  | .drainLocked rows | .drainTip rows _ => Distinct rows ∧ ∀ r ∈ rows, r ∈ db.pending
  | .drainFlushed rows chained => (Distinct rows ∧ ∀ r ∈ rows, r ∈ db.pending) ∧
      rows.filterMap (fun r => decode r.payload) = chained.map (·.entry.fields)
  | _ => False

structure Db.Spooled (base : List (LogFields DateTime)) (db : Db) : Prop where
  distinct : Distinct db.pending
  below : ∀ r ∈ db.pending, r.id < db.nextPendingId
  decodes : ∀ r ∈ db.pending, (decode r.payload).isSome
  balance : (chained db++waiting db).Perm base

def Txn.inserted : Txn → Option Int
  | .deferInserted _ row => some row.id
  | _ => none

structure World.Spooled (base : List (LogFields DateTime)) (w : World) : Prop where
  db : w.db.Spooled base
  txns : ∀ p, (w.txns p).Spooled w.db
  apart : ∀ p q id, p ≠ q → (w.txns p).inserted = some id → (w.txns q).inserted ≠ some id
  chain : ∀ p, (w.txns p).holdsChain → w.chainLock = some p

variable {base : List (LogFields DateTime)} {sha256 : String → String} {w : World} {p : Nat} {t : Txn}
  {db : Db}

theorem World.Spooled.at (h : w.Spooled base) (ht : w.txns p = t) : t.Spooled w.db := ht ▸ h.txns p

theorem World.Spooled.move {w' : World} {base' : List (LogFields DateTime)} (h : w.Spooled base)
    (db : w'.db.Spooled base') (txns : w'.txns = Function.update w.txns p t)
    (own : t.Spooled w'.db) (others : ∀ q, q ≠ p → (w.txns q).Spooled w'.db)
    (fresh : ∀ q id, q ≠ p → t.inserted = some id → (w.txns q).inserted ≠ some id)
    (chain : ∀ q, q ≠ p → w.chainLock = some q → w'.chainLock = some q)
    (mine : t.holdsChain → w'.chainLock = some p) : w'.Spooled base' := by
  refine ⟨db,fun q => ?_,fun q r id => ?_,fun q => ?_⟩ <;> rw [txns]
  · by_cases hq : q = p
    · subst hq
      simpa using own
    · rw [Function.update_of_ne hq]
      exact others q hq
  · intro hqr
    by_cases hq : q = p
    · subst hq
      rw [Function.update_self,Function.update_of_ne (Ne.symm hqr)]
      exact fresh r id (Ne.symm hqr)
    · rw [Function.update_of_ne hq]
      by_cases hr : r = p
      · subst hr
        rw [Function.update_self]
        exact fun hi ht => fresh q id hq ht hi
      · rw [Function.update_of_ne hr]
        exact h.apart q r id hqr
  · by_cases hq : q = p
    · subst hq
      simpa using mine
    · rw [Function.update_of_ne hq]
      exact fun held => chain q hq (h.chain q held)

theorem World.Spooled.read (h : w.Spooled base) (own : t.Spooled w.db) (plain : t.inserted = none)
    (mine : t.holdsChain → w.chainLock = some p) : (w.set p t).Spooled base :=
  h.move (p := p) (t := t) h.db rfl own (fun q _ => h.txns q) (by simp [plain]) (fun _ _ hq => hq) mine

theorem World.Spooled.chained {s : Txn} (h : w.Spooled base) (ht : w.txns p = s) (held : s.holdsChain)
    (own : t.Spooled w.db) (plain : t.inserted = none) : (w.set p t).Spooled base := by
  have lock := h.chain p (by rw [ht]; exact held)
  exact h.read own plain (fun _ => lock)

theorem World.Spooled.lockChain (h : w.Spooled base) (free : w.chainLock = none)
    (own : t.Spooled w.db) (plain : t.inserted = none) :
    ({w.set p t with chainLock := some p} : World).Spooled base :=
  h.move (p := p) (t := t) h.db rfl own (fun q _ => h.txns q) (by simp [plain])
    (fun q _ hq => by simp [free] at hq) (fun _ => rfl)

theorem World.Spooled.end {base' : List (LogFields DateTime)} {db' : Db} (h : w.Spooled base)
    (db : db'.Spooled base') (others : ∀ q, q ≠ p → (w.txns q).Spooled db') :
    (w.finish p db').Spooled base' := by
  refine h.move (p := p) (t := .done) db rfl trivial others nofun ?_ nofun
  intro q hq hl
  simp [World.finish,hl,hq]

theorem World.Spooled.others_free (h : w.Spooled base) (held : (w.txns p).holdsChain) {q : Nat}
    (hq : q ≠ p) : (w.txns q).holdsChain = false := by
  by_contra both
  have first := h.chain p held
  have second := h.chain q (by simpa using both)
  exact hq (Option.some.inj (second.symm.trans first))

theorem Txn.Spooled.same {db' : Db} (h : t.Spooled db) (pending : db'.pending = db.pending)
    (next : db.nextPendingId ≤ db'.nextPendingId) : t.Spooled db' := by
  cases t with
  | deferInserted f row =>
      obtain ⟨payload,below,fresh⟩ := h
      exact ⟨payload,Int.lt_of_lt_of_le below next,by rw [pending]; exact fresh⟩
  | _ => first | exact h | simpa only [Txn.Spooled,pending] using h

/-! ### Commits -/

theorem appendCommit_spooled {job : Job} {row : Log} (h : w.Spooled base)
    (ht : w.txns p = .writeInserted job row) :
    (w.finish p {w.db with logs := relinked job.changed w.db.logs++[row]}).Spooled
      (base++[row.entry.fields]) := by
  have plain : job.Plain := h.at ht
  refine h.end ⟨h.db.distinct,h.db.below,h.db.decodes,?_⟩ fun q _ => (h.txns q).same rfl (Int.le_refl _)
  have balance := h.db.balance
  simp only [Audit.chained,waiting,plain.1,relinked_nil,map_append,map_cons,map_nil] at balance ⊢
  refine List.Perm.trans ?_ (balance.append_right _)
  rw [append_assoc,append_assoc]
  exact perm_append_comm.append_left _

theorem deferCommit_spooled {f : LogFields DateTime} {row : PendingAuditLog} (h : w.Spooled base)
    (ht : w.txns p = .deferInserted f row) :
    (w.finish p {w.db with
      pending := w.db.pending.orderedInsert (fun a b => a.id ≤ b.id) row}).Spooled (base++[f]) := by
  obtain ⟨payload,below,fresh⟩ := h.at ht
  have perm := perm_orderedInsert (fun a b : PendingAuditLog => a.id ≤ b.id) row w.db.pending
  have mem : ∀ r, r ∈ w.db.pending.orderedInsert (fun a b => a.id ≤ b.id) row ↔
      r = row ∨ r ∈ w.db.pending := fun r => perm.mem_iff.trans mem_cons
  refine h.end ⟨?_,?_,?_,?_⟩ fun q hq => ?_
  · refine (perm.map PendingAuditLog.id).nodup_iff.mpr (nodup_cons.mpr ⟨fun hm => ?_,h.db.distinct⟩)
    obtain ⟨r,hr,hid⟩ := mem_map.mp hm
    exact fresh r hr hid
  · intro r hr
    rcases (mem r).mp hr with rfl | hr
    · exact below
    · exact h.db.below r hr
  · intro r hr
    rcases (mem r).mp hr with rfl | hr
    · simp [payload]
    · exact h.db.decodes r hr
  · have spool : (waiting {w.db with
        pending := w.db.pending.orderedInsert (fun a b => a.id ≤ b.id) row}).Perm
          (f::waiting w.db) := by
      refine (perm.filterMap _).trans ?_
      simp [waiting,payload]
    refine (spool.append_left _).trans (perm_middle.trans ?_)
    exact (h.db.balance.cons f).trans (perm_append_singleton f base).symm
  · -- Another row inserted meanwhile has another number; drains only gain a row.
    have known := h.txns q
    cases hs : w.txns q with
    | deferInserted g other =>
        obtain ⟨hp,hb,hf⟩ := h.at hs
        refine ⟨hp,hb,fun r hr => ?_⟩
        rcases (mem r).mp hr with rfl | hr
        · intro same
          exact h.apart q p other.id hq (by simp [hs,Txn.inserted]) (by simp [ht,Txn.inserted,same])
        · exact hf r hr
    | drainLocked rows | drainTip rows hash =>
        obtain ⟨hd,hm⟩ := h.at hs
        exact ⟨hd,fun r hr => (mem r).mpr (.inr (hm r hr))⟩
    | drainFlushed rows new =>
        obtain ⟨⟨hd,hm⟩,hf⟩ := h.at hs
        exact ⟨⟨hd,fun r hr => (mem r).mpr (.inr (hm r hr))⟩,hf⟩
    | _ =>
        rw [hs] at known
        exact known

theorem drained_perm {pending rows : List PendingAuditLog} (distinct : Distinct pending)
    (once : Distinct rows) (sub : ∀ r ∈ rows, r ∈ pending) :
    (rows++pending.filter fun r => !rows.any (·.id = r.id)).Perm pending := by
  have taken : (pending.filter fun r => rows.any (·.id = r.id)).Perm rows := by
    refine (perm_ext_iff_of_nodup ((List.Nodup.of_map _ distinct).filter _)
      (List.Nodup.of_map _ once)).mpr fun r => ?_
    simp only [mem_filter,any_eq_true,decide_eq_true_eq]
    constructor
    · rintro ⟨hr,x,hx,hid⟩
      have same := inj_on_of_nodup_map distinct (sub x hx) hr hid
      rwa [←same]
    · exact fun hr => ⟨sub r hr,r,hr,rfl⟩
  exact (taken.symm.append_right _).trans
    (filter_append_perm (fun r : PendingAuditLog => rows.any (·.id = r.id)) pending)

theorem drainCommit_spooled {rows : List PendingAuditLog} {new : List Log} (h : w.Spooled base)
    (ht : w.txns p = .drainFlushed rows new) :
    (w.finish p {w.db with
      logs := w.db.logs++new
      pending := w.db.pending.filter fun r => !rows.any (·.id = r.id)}).Spooled base := by
  have held : (w.txns p).holdsChain := by simp [ht,Txn.holdsChain]
  obtain ⟨⟨once,sub⟩,decoded⟩ := h.at ht
  have left : ∀ r ∈ w.db.pending.filter (fun r => !rows.any (·.id = r.id)), r ∈ w.db.pending :=
    fun r hr => (mem_filter.mp hr).1
  refine h.end ⟨?_,fun r hr => h.db.below r (left r hr),fun r hr => h.db.decodes r (left r hr),?_⟩
    fun q hq => ?_
  · exact h.db.distinct.sublist (List.Sublist.map _ filter_sublist)
  · have perm := (drained_perm h.db.distinct once sub).filterMap fun r => decode r.payload
    rw [filterMap_append,decoded] at perm
    refine List.Perm.trans ?_ h.db.balance
    simp only [Audit.chained,map_append,append_assoc]
    exact perm.append_left _
  · have free := h.others_free held hq
    have known := h.txns q
    cases hs : w.txns q with
    | deferInserted g other =>
        obtain ⟨hp,hb,hf⟩ := h.at hs
        exact ⟨hp,hb,fun r hr => hf r (left r hr)⟩
    | drainLocked rows | drainTip rows hash | drainFlushed rows new =>
      simp [hs,Txn.holdsChain] at free
    | _ =>
        rw [hs] at known
        exact known

/-! ### Steps and runs -/

theorem filterMap_of_mapM {α β : Type} {f : α → Option β} {xs : List α} {ys : List β}
    (h : xs.mapM f = some ys) : xs.filterMap f = ys := by
  induction xs generalizing ys with
  | nil => simpa using h
  | cons x xs ih =>
      simp only [mapM_cons,Option.bind_eq_bind,Option.pure_def,Option.bind_eq_some_iff,
        Option.some.injEq] at h
      obtain ⟨y,hy,ys,hys,rfl⟩ := h
      simp [hy,ih hys]

theorem chainAll_fields (id : Int) (h : Option String) (fs : List (LogFields DateTime)) :
    (chainAll sha256 id h fs).map (·.entry.fields) = fs := by
  induction fs generalizing id h with
  | nil => rfl
  | cons f fs ih => simp [chainAll,chainEntry,ih]

theorem distinct_take {rows : List PendingAuditLog} (h : Distinct rows) (n : Nat) :
    Distinct (rows.take n) := h.sublist (List.Sublist.map _ (take_sublist n rows))

theorem step_spooled {e : Event} {w' : World} (h : w.Spooled base) (undrained : Undrained w e)
    (step : Step sha256 w e w') : w'.Spooled (base++e.added) := by
  have none : ∀ {v : World}, v.Spooled base → v.Spooled (base++[]) := by simp
  cases step with
  | @begin p t _ _ =>
      refine none ?_
      have kind : t.spools := undrained
      cases t with
      | write f | defer f | drain limit => exact h.read trivial rfl nofun
      | _ => simp [Txn.spools] at kind
  | rollback p => exact none (h.end h.db fun q _ => h.txns q)
  | writeLock ht free => exact none (h.lockChain free ⟨rfl,rfl⟩ rfl)
  | writeSelect ht | writeRead ht _ | drainTip ht =>
      have known := h.at ht
      exact none (h.chained ht rfl known rfl)
  | @writeInsert p f job hash ht =>
      have known := h.at ht
      have lock := h.chain p (by rw [ht]; rfl)
      exact none (h.move (p := p) ⟨h.db.distinct,h.db.below,h.db.decodes,h.db.balance⟩ rfl known
        (fun q _ => (h.txns q).same rfl (Int.le_refl _)) nofun (fun _ _ hq => hq) fun _ => lock)
  | writeCommit ht _ => exact appendCommit_spooled h ht
  | repairCommit ht repairing | repairEarly ht repairing =>
      have known : Job.Plain _ := h.at ht
      exact absurd (known.2.symm.trans repairing) (by decide)
  | @deferInsert p f ht =>
      have next : w.db.nextPendingId ≤ w.db.nextPendingId+1 := by omega
      refine none (h.move (p := p)
        ⟨h.db.distinct,fun r hr => Int.lt_of_lt_of_le (h.db.below r hr) next,h.db.decodes,h.db.balance⟩
        rfl ⟨rfl,by change w.db.nextPendingId < w.db.nextPendingId+1; omega,fun r hr => ?_⟩
        (fun q _ => (h.txns q).same rfl next) (fun q id hq hi => ?_) (fun _ _ hq => hq) nofun)
      · have := h.db.below r hr
        change r.id ≠ w.db.nextPendingId
        omega
      · have hid : w.db.nextPendingId = id := Option.some.inj hi
        cases hs : w.txns q with
        | deferInserted g other =>
            have below := (h.at hs).2.1
            simp only [Txn.inserted,ne_eq,Option.some.injEq]
            omega
        | _ => simp [Txn.inserted]
  | deferCommit ht => exact deferCommit_spooled h ht
  | @drainSelect p limit ht _ => exact none (h.read (distinct_take h.db.distinct limit) rfl nofun)
  | @drainLock p rows ht free =>
      exact none (h.lockChain free ⟨h.at ht,undrained rows ht⟩ rfl)
  | @drainFlush p rows hash fs ht decoded =>
      have known := h.at ht
      have lock := h.chain p (by rw [ht]; rfl)
      exact none (h.move (p := p) ⟨h.db.distinct,h.db.below,h.db.decodes,h.db.balance⟩ rfl
        ⟨known,by rw [filterMap_of_mapM decoded,chainAll_fields]⟩
        (fun q _ => (h.txns q).same rfl (Int.le_refl _)) nofun (fun _ _ hq => hq) fun _ => lock)
  | drainCommit ht => exact none (drainCommit_spooled h ht)
  | purgeLock ht | purgeMax ht | purgeBound ht | purgeIds ht | purgeHash ht | purgeDelete ht
  | purgeCommit ht | repairSeed ht | repairVerify ht | repairLock ht | repairFrom ht
  | repairPrior ht | repairAnchor ht | repairSelect ht | repairFetch ht | repairEnd ht =>
    exact (h.at ht).elim

/-- No transaction is open, and the waiting rows are numbered entries. -/
structure World.SpoolStart (w : World) : Prop where
  idle : ∀ p, w.txns p = .done
  distinct : Distinct w.db.pending
  below : ∀ r ∈ w.db.pending, r.id < w.db.nextPendingId
  decodes : ∀ r ∈ w.db.pending, (decode r.payload).isSome

theorem World.SpoolStart.spooled (h : w.SpoolStart) : w.Spooled (chained w.db++waiting w.db) := by
  refine ⟨⟨h.distinct,h.below,h.decodes,.refl _⟩,fun p => ?_,fun p q id _ => ?_,fun p => ?_⟩ <;>
    rw [h.idle p]
  · trivial
  · exact nofun
  · exact nofun

theorem run_spooled {es : List Event} {w' : World} (h : w.Spooled base)
    (run : Run (Guarded (Step sha256) Undrained) w es w') :
    w'.Spooled (base++es.flatMap Event.added) := by
  induction run with
  | nil => simpa using h
  | snoc _ step ih =>
      have := step_spooled ih step.1 step.2
      simpa [append_assoc] using this

/-- The entries in the chain and those waiting are, each as often, the ones there
were, the ones appended and the ones deferred, field for field; and every waiting
row can be chained. -/
def ChainedOnce (w : World) (es : List Event) (w' : World) : Prop :=
  (chained w'.db++waiting w'.db).Perm (chained w.db++waiting w.db++es.flatMap Event.added) ∧
    ∀ r ∈ w'.db.pending, (decode r.payload).isSome

theorem deferred_entries_chained_once {es : List Event} {w' : World} (start : w.SpoolStart)
    (run : Run (Guarded (Step sha256) Undrained) w es w') : ChainedOnce w es w' :=
  ⟨(run_spooled start.spooled run).db.balance,(run_spooled start.spooled run).db.decodes⟩

/-! ### Two drains -/

def emptyTables : World where
  db := ⟨[],some none,[],1,1⟩
  txns := fun _ => .done
  chainLock := none
  settingsLock := none

theorem emptyTables_start : emptyTables.SpoolStart :=
  ⟨fun _ => rfl,nodup_nil,by simp [emptyTables],by simp [emptyTables]⟩

theorem login_decoded : [(⟨1,encode loginFields⟩ : PendingAuditLog)].mapM (fun r => decode r.payload) =
    some [loginFields] := by simp

theorem drain_once : ∃ es w', Run (Guarded (Step tagged) Undrained) emptyTables es w' ∧
    chained w'.db = [loginFields] := by
  have run : Run (Guarded (Step tagged) Undrained) emptyTables [] emptyTables := .nil _
  have run := run.also (.begin (p := 0) (t := .defer loginFields) rfl rfl) rfl
  have run := run.also (.deferInsert (p := 0) rfl) trivial
  have run := run.also (.deferCommit (p := 0) rfl) trivial
  have run := run.also (.begin (p := 1) (t := .drain 500) rfl rfl) rfl
  have run := run.also (.drainSelect (p := 1) rfl nofun) trivial
  have run := run.also (.drainLock (p := 1) rfl rfl) fun rows hr r hm => by
    cases hr
    exact hm
  have run := run.also (.drainTip (p := 1) rfl) trivial
  have run := run.also (.drainFlush (p := 1) rfl login_decoded) trivial
  have run := run.also (.drainCommit (p := 1) rfl) trivial
  exact ⟨_,_,run,rfl⟩

theorem deferred_entries_chained_once_login : ∃ es w',
    Run (Guarded (Step tagged) Undrained) emptyTables es w' ∧ ChainedOnce emptyTables es w' ∧
      chained w'.db = [loginFields] := by
  obtain ⟨es,w',run,logs⟩ := drain_once
  exact ⟨es,w',run,deferred_entries_chained_once emptyTables_start run,logs⟩

theorem drain_twice : ∃ es w', Run (Guarded (Step tagged) SpoolOnly) emptyTables es w' ∧
    chained w'.db = [loginFields,loginFields] ∧ es.flatMap Event.added = [loginFields] := by
  have run : Run (Guarded (Step tagged) SpoolOnly) emptyTables [] emptyTables := .nil _
  have run := run.also (.begin (p := 0) (t := .defer loginFields) rfl rfl) rfl
  have run := run.also (.deferInsert (p := 0) rfl) trivial
  have run := run.also (.deferCommit (p := 0) rfl) trivial
  have run := run.also (.begin (p := 1) (t := .drain 500) rfl rfl) rfl
  have run := run.also (.begin (p := 2) (t := .drain 500) rfl rfl) rfl
  have run := run.also (.drainSelect (p := 1) rfl nofun) trivial
  have run := run.also (.drainSelect (p := 2) rfl nofun) trivial
  have run := run.also (.drainLock (p := 1) rfl rfl) trivial
  have run := run.also (.drainTip (p := 1) rfl) trivial
  have run := run.also (.drainFlush (p := 1) rfl login_decoded) trivial
  have run := run.also (.drainCommit (p := 1) rfl) trivial
  have run := run.also (.drainLock (p := 2) rfl rfl) trivial
  have run := run.also (.drainTip (p := 2) rfl) trivial
  have run := run.also (.drainFlush (p := 2) rfl login_decoded) trivial
  have run := run.also (.drainCommit (p := 2) rfl) trivial
  exact ⟨_,_,run,rfl,rfl⟩

theorem deferred_entry_chained_twice :
    ¬∀ (sha256 : String → String) (w w' : World) (es : List Event), w.SpoolStart →
      Run (Guarded (Step sha256) SpoolOnly) w es w' → ChainedOnce w es w' := by
  intro claim
  obtain ⟨es,w',run,logs,added⟩ := drain_twice
  have once := (claim tagged emptyTables w' es emptyTables_start run).1.length_eq
  rw [logs,added] at once
  simp [chained,waiting,emptyTables] at once

end CircuitBreaker.Audit
