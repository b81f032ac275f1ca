import CircuitBreaker.LifecycleRequests
import CircuitBreaker.StepRuns

/-! Whole runs of the state utility: requests that take the writer lock one after
another, each of them killed at any point or answered. -/

namespace CircuitBreaker.Lifecycle
open DiskProgram StepRuns List

/-! Each request. -/

structure Kept (s s' : Store) : Prop where
  inv : s'.Inv
  same : ∀ m, hidden m = false → s'.disk.dir m = s.disk.dir m

theorem Kept.holds {s s' : Store} (h : Kept s s') {name : String} {n : Nat} {j : Journal} :
    s'.disk.Holds name n j ↔ s.disk.Holds name n j :=
  and_congr_right fun hn => by rw [h.same name hn]

theorem Kept.live {s s' : Store} (h : Kept s s') (m : String) :
    s'.disk.Live m ↔ s.disk.Live m := by
  simp only [Disk.Live,h.holds]

theorem Kept.pending {s s' : Store} (h : Kept s s') (m : String) :
    s'.disk.Pending m ↔ s.disk.Pending m := by
  simp only [Disk.Pending,h.holds]

theorem Kept.trans {s t u : Store} (h : Kept s t) (g : Kept t u) : Kept s u :=
  ⟨g.inv,fun m hm => (g.same m hm).trans (h.same m hm)⟩

theorem Unseen.kept {s : Store} {a : Act} (h : Unseen s a) (inv : s.Inv) : Kept s (s.after a) :=
  ⟨(h.allowed inv).2,h.same⟩

section
variable {shown : String → String} {s : Store}

variable {records : List Record}

theorem writeIndex_wp {now : Moment}
    {Q : Except StateError Nat → Store → Prop} (inv : s.Inv)
    (cont : ∀ out s', Kept s s' → Q out s') :
    (writeIndex shown now records).wp device Allowed Q s := by
  unfold writeIndex
  cases buildIndex shown now records with
  | error e => exact cont _ s ⟨inv,fun _ _ => rfl⟩
  | ok x =>
    have unseen := unseen_writeIndex inv x.1
    exact wp_act (unseen.allowed inv).1 (cont _ _ (unseen.kept inv))

theorem indexQuietly_wp {now : Moment}
    {Q : List String → Store → Prop} (inv : s.Inv) (cont : ∀ out s', Kept s s' → Q out s') :
    (indexQuietly shown now records).wp device Allowed Q s := by
  simp only [indexQuietly,Prog.bind_eq]
  rw [Prog.wp_bind]
  refine writeIndex_wp inv fun out s' kept => ?_
  cases out <;> exact cont _ s' kept

theorem staging_hidden {name : String} (h : staging name = true) : hidden name = true := by
  simp only [staging, isPrefixOf_iff_prefix] at h
  obtain ⟨t,ht⟩ := h
  simp [hidden,←ht]

theorem removeAll_wp {names : List String} : ∀ {s : Store} {Q : Unit → Store → Prop}, s.Inv →
    (∀ m ∈ names, hidden m = true) →
    (∀ s', Kept s s' → (∀ m, m ∈ s'.disk.names ↔ m ∈ s.disk.names ∧ m ∉ names) → Q () s') →
    (removeAll names).wp device Allowed Q s := by
  induction names with
  | nil =>
    intro s Q inv _ cont
    exact cont s ⟨inv,fun _ _ => rfl⟩ (by simp)
  | cons name names ih =>
    intro s Q inv hid cont
    have unseen := unseen_removeStaging inv (hid name (by simp))
    have removed : ∀ m, m ∈ (s.after (.removeStaging name)).disk.names ↔
        m ∈ s.disk.names ∧ m ≠ name := by
      intro m
      simp only [Store.after,device,Act.apply,Disk.names,mem_map,mem_filter,bne_iff_ne]
      constructor
      · rintro ⟨e,⟨he,hn⟩,rfl⟩
        exact ⟨⟨e,he,rfl⟩,hn⟩
      · rintro ⟨⟨e,he,rfl⟩,hn⟩
        exact ⟨e,⟨he,hn⟩,rfl⟩
    refine wp_act (unseen.allowed inv).1 (ih (unseen.allowed inv).2
      (fun m hm => hid m (by simp [hm])) fun s' kept names' => ?_)
    refine cont s' ((unseen.kept inv).trans kept) fun m => ?_
    rw [names',removed,mem_cons,not_or,and_assoc]

variable {Q : Reply → Store → Prop}

theorem publish_wp {later : Moment} {suffix op : String} {j : Journal} {event : Json} {warnings : List String} (inv : s.Inv)
    (unstaged : ".new-" ++ suffix ∉ s.disk.names) (fresh : op ∉ s.disk.names)
    (vis : hidden op = false) (sound : Sound op 1 j) (record : recordOf op (some j) = [.record op 1])
    (idle : ∀ m, ¬s.disk.Live m) (clear : ∀ m, ¬s.disk.Pending m)
    (cont : ∀ out s', s'.Inv → Q out s') :
    (publish shown later suffix op j event records warnings).wp device Allowed Q s := by
  have hid : hidden (".new-" ++ suffix) = true := by simp [hidden]
  have ne : op ≠ ".new-" ++ suffix := visible_ne vis hid
  generalize hname : ".new-" ++ suffix = name at *
  simp only [publish,Prog.bind_eq,perform_bind,hname]
  have u₁ := unseen_mkdir inv hid unstaged
  obtain ⟨a₁,inv₁⟩ := u₁.allowed inv
  have u₂ := unseen_writeSequence inv₁ hid 1
  obtain ⟨a₂,inv₂⟩ := u₂.allowed inv₁
  have u₃ := unseen_writeJournal inv₂ hid j
  obtain ⟨a₃,inv₃⟩ := u₃.allowed inv₂
  let s₃ := ((s.after (.mkdir name)).after (.writeSequence name 1)).after (.writeJournal name j)
  have kept : Kept s s₃ := ((u₁.kept inv).trans (u₂.kept inv₁)).trans (u₃.kept inv₂)
  have staged : s₃.disk.dir name = some ⟨some 1,some j⟩ := by
    have made := dir_mkdir_self unstaged
    simp [s₃,Store.after,device,Act.apply] at made ⊢
    simp [made]
  have fresh₃ : op ∉ s₃.disk.names := by
    simp only [s₃,Store.after,device,Act.apply,names_change]
    simp only [Disk.names,map_append,map_cons,map_nil,mem_append,
      mem_singleton,not_or]
    exact ⟨fresh,ne⟩
  have idle₃ : ∀ m, ¬s₃.disk.Live m := fun m h => idle m ((kept.live m).1 h)
  have clear₃ : ∀ m, ¬s₃.disk.Pending m := fun m h => clear m ((kept.pending m).1 h)
  obtain ⟨a₄,inv₄,hold₄⟩ := replace_allowed inv₃ hid vis fresh₃ staged sound idle₃ clear₃
  have used₄ : (s₃.after (.replace name op)).used = s.used ++ [.record op 1] := by
    simp only [Store.after,device,Act.uses,staged,Option.bind_some,record]
    simp [s₃,Store.after,device,Act.uses,hid]
  have after : ∀ u ∈ (s₃.after (.replace name op)).used, u.Before (.event op 1 event) := by
    rw [used₄]
    intro u hu ho
    rcases mem_append.1 hu with hu|hu
    · obtain ⟨n',j',hold',-⟩ := inv.spent u hu
      have same : u.op = op := ho
      exact absurd (same ▸ hold'.mem) fresh
    · simp only [mem_singleton] at hu
      exact .inr (by simp [hu,Use.sequence,Use.isEvent])
  obtain ⟨a₅,inv₅⟩ := writeEvent_allowed inv₄ hold₄ (le_refl 1) event after
  refine wp_act a₁ (wp_act a₂ (wp_act a₃ (wp_act a₄ (wp_act a₅ ?_))))
  rw [Prog.wp_bind]
  exact indexQuietly_wp inv₅ fun out s' kept => cont _ s' kept.inv

/-! What a reconciliation without a bound operation leaves. -/

variable {bound : String}

theorem Reconciled.idle {read : List String} {out : List Record} {s' : Store}
    (h : Reconciled bound read s out s') (all : ∀ m, m ∈ s.disk.names → hidden m = false → m ∈ read)
    {m : String} (hm : m ≠ bound) : ¬s'.disk.Live m := by
  rintro ⟨n,j,hold,progress,room⟩
  have hm' : m ∈ out.map Record.name := h.listed ▸ all m (h.names ▸ hold.mem) hold.1
  obtain ⟨r,hr,rfl⟩ := mem_map.1 hm'
  obtain ⟨n₀,j₀,n',t,-,hold',-,settled⟩ := h.settled r hr
  obtain ⟨rfl,rfl⟩ := hold'.unique hold
  rcases settled with ⟨rfl,rfl,h|h|h⟩|⟨-,-,-,h,-⟩
  · exact hm h
  · simp [progress] at h
  · exact h room
  · simp [progress] at h

/-- The journal of a transaction that a begin may close: it changed nothing, and it has a
number left for the record that says so. -/
def Harmless (n : Nat) (j : Journal) : Prop :=
  j.inProgress = true ∧ (n : Int) < maxSafe ∧ ∃ c, j.last = some c ∧ c.state ∈ preMutation

theorem Settled.pending {mine : Prop} {n n' : Nat} {j t : Journal} (h : Settled mine n j n' t)
    (pending : j.pending = true) (harm : ¬Harmless n j) : t.pending = true := by
  rcases h with ⟨-,rfl,-⟩|⟨-,progress,room,-,hk,hf⟩
  · exact pending
  · simp only [Journal.pending,Bool.and_eq_true,hk] at pending ⊢
    refine ⟨pending.1,?_⟩
    by_contra hn
    exact harm ⟨progress,room,hf (by simpa using hn)⟩

theorem blocking_of_pending {kind : Kind} {r : Record} {j : Journal}
    (hr : r ∈ records) (hj : r.journal = some j) (pending : j.pending = true) :
    blocking shown kind records ≠ [] := by
  intro h
  have none := (append_eq_nil_iff.1 h).1
  simp only [map_eq_nil_iff,filter_eq_nil_iff] at none
  exact none r hr (by simpa [hj,Journal.pending] using pending)

theorem suffix_staging (suffix : String) : staging (".new-" ++ suffix) = true := by
  simp [staging]

def Disk.Blocked (d : Disk) : Prop := ∃ m n j, d.Holds m n j ∧ j.pending = true ∧ ¬Harmless n j

theorem Kept.blocked {s s' : Store} (h : Kept s s') : s'.disk.Blocked ↔ s.disk.Blocked := by
  simp only [Disk.Blocked,h.holds]

variable {clock : Nat → Moment}

theorem handleBegin_wp {suffix : String} {r : BeginRequest} (inv : s.Inv)
    (cont : ∀ out s', s'.Inv → (s.disk.Blocked → ∃ e, out = .error e) → Q out s') :
    (handleBegin shown clock suffix bound r).wp device Allowed Q s := by
  unfold handleBegin
  by_cases hb : bound ≠ ""
  · rw [if_pos hb]
    exact cont _ s inv fun _ => ⟨_,rfl⟩
  rw [if_neg hb]
  have hb' : bound = "" := by simpa using hb
  subst hb'
  simp only [Prog.bind_eq,perform_bind]
  refine wp_look inv ?_
  rw [Prog.wp_bind]
  refine removeAll_wp inv (fun m hm => staging_hidden (mem_filter.1 hm).2)
    fun s₁ kept₁ names₁ => ?_
  refine wp_look kept₁.inv ?_
  rw [Prog.wp_bind]
  refine reconcile_wp kept₁.inv (readRecords_current kept₁.inv) (readRecords_nodup kept₁.inv.nodup)
    fun out s₂ done => ?_
  by_cases hblock : blocking shown r.kind out.1 ≠ []
  · rw [if_pos hblock,Prog.wp_bind]
    exact indexQuietly_wp done.inv fun _ s' kept => cont _ s' kept.inv fun _ => ⟨_,rfl⟩
  rw [if_neg hblock]
  refine wp_look done.inv ?_
  have all : ∀ m, m ∈ s₁.disk.names → hidden m = false →
      m ∈ s₁.disk.readRecords.map Record.name := fun m hm hv => mem_readRecords.2 ⟨hm,hv⟩
  cases hp : prepare (clock out.1.length) s₂.disk.names r with
  | error e => exact cont _ s₂ done.inv fun _ => ⟨e,rfl⟩
  | ok x =>
    obtain ⟨op,j,event⟩ := x
    obtain ⟨fresh,vis,sound,record⟩ := prepare_sound hp
    have unstaged : ".new-" ++ suffix ∉ s₂.disk.names := by
      rw [done.names,names₁]
      rintro ⟨hm,hn⟩
      exact hn (mem_filter.2 ⟨hm,suffix_staging suffix⟩)
    have idle : ∀ m, ¬s₂.disk.Live m := by
      intro m live
      refine done.idle all ?_ live
      rintro rfl
      obtain ⟨n,j,hold,-⟩ := live
      exact absurd (done.inv.holds_sound hold).validId (by decide)
    have settled : ∀ m n j, s₂.disk.Holds m n j → ∃ q ∈ out.1, q.name = m ∧ q.journal = some j := by
      intro m n j hold
      have hm : m ∈ out.1.map Record.name :=
        done.listed ▸ all m (done.names ▸ hold.mem) hold.1
      obtain ⟨q,hq,rfl⟩ := mem_map.1 hm
      obtain ⟨_,_,n',t,-,hold',hj,-⟩ := done.settled q hq
      obtain ⟨rfl,rfl⟩ := hold'.unique hold
      exact ⟨q,hq,rfl,hj⟩
    have clear : ∀ m, ¬s₂.disk.Pending m := by
      rintro m ⟨n,j,hold,pending⟩
      obtain ⟨q,hq,-,hj⟩ := settled m n j hold
      exact hblock (blocking_of_pending hq hj pending)
    have free : ¬s.disk.Blocked := by
      rw [←kept₁.blocked]
      rintro ⟨m,n,j,hold,pending,harm⟩
      have hm : m ∈ out.1.map Record.name := done.listed ▸ all m hold.mem hold.1
      obtain ⟨q,hq,rfl⟩ := mem_map.1 hm
      obtain ⟨_,_,n',t,before,after,-,settled⟩ := done.settled q hq
      obtain ⟨rfl,rfl⟩ := before.unique hold
      exact clear _ ⟨n',t,after,settled.pending pending harm⟩
    exact publish_wp done.inv unstaged fresh vis sound record idle clear fun out s' inv' =>
      cont out s' inv' fun hb => absurd hb free

theorem handleList_wp
    (inv : s.Inv) (cont : ∀ out s', s'.Inv → Q out s') :
    (handleList shown clock bound).wp device Allowed Q s := by
  simp only [handleList,Prog.bind_eq,perform_bind]
  refine wp_look inv ?_
  rw [Prog.wp_bind]
  refine reconcile_wp inv (readRecords_current inv) (readRecords_nodup inv.nodup)
    fun out s₁ done => ?_
  rw [Prog.wp_bind]
  refine writeIndex_wp done.inv fun out s₂ kept => ?_
  cases out <;> exact cont _ s₂ kept.inv

theorem nextCheckpoint_next {op : String} {n : Nat} {j t : Journal} {now : Moment}
    {r : CheckpointRequest} {entry : Checkpoint} {event : Json} (h : Sound op n j)
    (hn : nextCheckpoint n now.stamp j r = .ok (t,entry,event)) :
    Next op n j t entry ∧ t.generation = r.expectedGeneration+1 := by
  unfold nextCheckpoint at hn
  by_cases hg : r.expectedGeneration ≠ j.generation
  · simp [hg] at hn
  · rw [if_neg hg] at hn
    obtain ⟨x,hx,hn⟩ := except_bind hn
    obtain ⟨e,-,hn⟩ := except_bind hn
    simp only [pure,Except.pure,Except.ok.injEq,Prod.mk.injEq] at hn
    obtain ⟨rfl,rfl,rfl⟩ := hn
    obtain ⟨_,_,_,-,-,-,-,ht⟩ := nextJournal_cases hx
    refine ⟨checkpoint_next h rfl hx,?_⟩
    rw [ht,not_not.1 hg]

/-- An accepted checkpoint is the next generation of the journal it was based on. -/
def Recorded (r : CheckpointRequest) (out : Reply) (s : Store) : Prop :=
  ∀ lines, out = .ok lines →
    ∃ n t, s.disk.Holds r.operationId n t ∧ t.generation = r.expectedGeneration+1

theorem handleCheckpoint_wp {r : CheckpointRequest} (inv : s.Inv)
    (cont : ∀ out s', s'.Inv → Recorded r out s' → Q out s') :
    (handleCheckpoint shown clock bound r).wp device Allowed Q s := by
  have refused : ∀ e, Recorded r (.error e) s := fun e _ h => by simp at h
  simp only [handleCheckpoint]
  by_cases hb : bound ≠ r.operationId
  · rw [if_pos hb]
    exact cont _ s inv (refused _)
  rw [if_neg hb]
  simp only [Prog.bind_eq,perform_bind]
  refine wp_look inv ?_
  cases ho : s.disk.operation r.operationId with
  | error e => exact cont _ s inv (refused e)
  | ok j =>
    obtain ⟨n,hold⟩ := operation_holds inv ho
    have sound := inv.holds_sound hold
    rw [Except.bind,readCounter_holds hold sound]
    cases hn : nextCheckpoint n (clock 0).stamp j r with
    | error e => exact cont _ s inv (refused e)
    | ok x =>
      obtain ⟨t,entry,event⟩ := x
      obtain ⟨next,generation⟩ := nextCheckpoint_next sound hn
      refine wp_store inv hold next fun s₁ stored => ?_
      have after : ∀ u ∈ s₁.used, u.Before (.event r.operationId (n+1) event) := by
        rw [stored.used]
        intro u hu ho
        rcases mem_append.1 hu with hu|hu
        · exact .inl (Nat.lt_succ_of_le (used_below inv hold hu ho))
        · simp only [mem_singleton] at hu
          exact .inr (by simp [hu,Use.sequence,Use.isEvent])
      obtain ⟨allowed,inv₂⟩ := writeEvent_allowed stored.inv stored.holds le_rfl event after
      rw [next.sequence]
      refine wp_act allowed ?_
      rw [Prog.wp_bind]
      exact indexQuietly_wp inv₂ fun _ s' kept => cont _ s' kept.inv fun _ _ =>
        ⟨n+1,t,kept.holds.2 stored.holds,generation⟩

theorem usageOf_ok {problem : Option String} {u : Unit} (h : usageOf problem = .ok u) :
    problem = none := by
  cases problem with
  | none => rfl
  | some message => simp [usageOf] at h

theorem emittedEvent_safe {r : EmitRequest} {q : Nat} {now : Moment} {event : Json}
    (h : emittedEvent r q now = .ok event) : (q : Int) ≤ maxSafe := by
  obtain ⟨_,-,h⟩ := except_bind h
  obtain ⟨_,-,h⟩ := except_bind h
  obtain ⟨_,hv,-⟩ := except_bind h
  have valid : validateEvent (r.event q now) = none := Option.map_eq_none_iff.1 (usageOf_ok hv)
  obtain ⟨text,ht,-⟩ := assertValid_eq_none.1 valid
  have plain := (canonical_plain ht).1
  simp only [Json.plain,Bool.and_eq_true,plainMembers_append,plainMembers,plain_nat,
    decide_eq_true_eq] at plain
  exact plain.2.1.2.2.1.2.2

theorem handleEmit_wp {r : EmitRequest} (inv : s.Inv) (cont : ∀ out s', s'.Inv → Q out s') :
    (handleEmit clock bound r).wp device Allowed Q s := by
  simp only [handleEmit]
  by_cases hb : bound ≠ r.operationId
  · rw [if_pos hb]
    exact cont _ s inv
  rw [if_neg hb]
  simp only [Prog.bind_eq,perform_bind]
  refine wp_look inv ?_
  cases ho : s.disk.operation r.operationId with
  | error e => exact cont _ s inv
  | ok j =>
    obtain ⟨n,hold⟩ := operation_holds inv ho
    have sound := inv.holds_sound hold
    rw [Except.bind,readCounter_holds hold sound,nextSequence_eq sound]
    cases he : emittedEvent r (n+1) (clock 0) with
    | error e => exact cont _ s inv
    | ok event =>
      have safe := emittedEvent_safe he
      obtain ⟨ha,inv₁,hold₁⟩ := writeSequence_allowed inv hold (Nat.le_succ n) safe
      have after : ∀ u ∈ (s.after (.writeSequence r.operationId (n+1))).used,
          u.Before (.event r.operationId (n+1) event) := by
        have used : (s.after (.writeSequence r.operationId (n+1))).used = s.used := by
          simp [Store.after,device,Act.uses]
        rw [used]
        exact fun u hu ho => .inl (Nat.lt_succ_of_le (used_below inv hold hu ho))
      obtain ⟨hb,inv₂⟩ := writeEvent_allowed inv₁ hold₁ le_rfl event after
      exact wp_act ha (wp_act hb (cont _ _ inv₂))

theorem steps_wp (c : Call) (inv : s.Inv) :
    (c.steps shown).wp device Allowed (fun _ s' => s'.Inv) s := by
  unfold Call.steps
  cases c.request with
  | begin r => exact handleBegin_wp inv fun _ _ inv' _ => inv'
  | checkpoint r => exact handleCheckpoint_wp inv fun _ _ inv' _ => inv'
  | emit r => exact handleEmit_wp inv fun _ _ inv' => inv'
  | list => exact handleList_wp inv fun _ _ inv' => inv'

end

/-! Runs. -/

/-- The store, and what the request that holds the writer lock has left to do. -/
structure Host where
  store : Store := {}
  holder : Option (Step Reply) := none

inductive Happening where
  | locked (c : Call)
  | acted (a : Act)
  | answered (reply : Reply)
  | killed

/-- A request takes the free lock, acts, and gives the lock up with its answer or killed. -/
inductive Moves (shown : String → String) : Host → Happening → Host → Prop where
  | locked {s : Store} (c : Call) : Moves shown ⟨s,none⟩ (.locked c) ⟨s,some (c.steps shown)⟩
  | acted {s : Store} {a : Act} {k : Disk → Step Reply} :
      Moves shown ⟨s,some (.act a k)⟩ (.acted a) ⟨s.after a,some (k (s.after a).disk)⟩
  | answered {s : Store} {reply : Reply} :
      Moves shown ⟨s,some (.done reply)⟩ (.answered reply) ⟨s,none⟩
  | killed {s : Store} {p : Step Reply} : Moves shown ⟨s,some p⟩ .killed ⟨s,none⟩

structure Host.Safe (h : Host) : Prop where
  inv : h.store.Inv
  holder : ∀ p, h.holder = some p → p.wp device Allowed (fun _ s => s.Inv) h.store

theorem wp_inv {p : Step Reply} {s : Store} (h : p.wp device Allowed (fun _ s => s.Inv) s) :
    s.Inv := by
  cases p with
  | done reply => exact h
  | act a k => exact h.1.inv

section
variable {shown : String → String} {h h' : Host} {es fs : List Happening}

theorem Moves.safe {e : Happening} (move : Moves shown h e h') (safe : h.Safe) : h'.Safe := by
  cases move with
  | locked c =>
    refine ⟨safe.inv,fun p hp => ?_⟩
    obtain rfl := Option.some.inj hp
    exact steps_wp c safe.inv
  | acted =>
    have next := (safe.holder _ rfl).2
    refine ⟨wp_inv next,fun p hp => ?_⟩
    obtain rfl := Option.some.inj hp
    exact next
  | answered | killed => exact ⟨safe.inv,by simp⟩

theorem safe_empty : Host.Safe {} := ⟨Store.Inv.empty,by simp⟩

theorem run_safe (run : Run (Moves shown) {} es h) : h.Safe :=
  run.invariant (fun _ _ _ safe move => move.safe safe) safe_empty

theorem Moves.grows {e : Happening} (move : Moves shown h e h') (safe : h.Safe) :
    h.store.disk.Grows h'.store.disk ∧ h.store.used <+: h'.store.used := by
  cases move with
  | acted => exact ⟨(safe.holder _ rfl).1.grows,prefix_append ..⟩
  | locked | answered | killed => exact ⟨.refl _,prefix_rfl⟩

theorem run_grows (safe : h.Safe) (run : Run (Moves shown) h fs h') :
    h.store.disk.Grows h'.store.disk ∧ h.store.used <+: h'.store.used :=
  run.relates (R := fun a b => a.store.disk.Grows b.store.disk ∧ a.store.used <+: b.store.used)
    (fun _ => ⟨.refl _,prefix_rfl⟩)
    (by
      rintro a b c ⟨g₁,u₁⟩ ⟨g₂,u₂⟩
      exact ⟨g₁.trans g₂,u₁.trans u₂⟩)
    (fun _ _ _ safe move => move.safe safe) (fun _ _ _ safe move => move.grows safe) safe

end

end CircuitBreaker.Lifecycle
