import CircuitBreaker.AuditTables

/-! The audit chain under concurrent transactions: what each transaction knows of
the committed tables while it is open, and that the chain verifies in every state
of every run in which no purge batch and no repair commit across each other. -/

namespace CircuitBreaker.Audit
open StepRuns List

/-! ### Tables in id order -/

def Sorted (logs : List Log) : Prop := logs.Pairwise fun a b => a.id < b.id

variable {logs : List Log} {r : Log}

theorem Sorted.split (h : Sorted logs) (hr : r ∈ logs) :
    ∃ a b, logs = a++r::b ∧ (∀ x ∈ a, x.id < r.id) ∧ ∀ x ∈ b, r.id < x.id := by
  obtain ⟨a,b,rfl⟩ := append_of_mem hr
  obtain ⟨-,tail,across⟩ := pairwise_append.mp h
  exact ⟨a,b,rfl,fun x hx => across x hx r (by simp),(pairwise_cons.mp tail).1⟩

theorem Sorted.find (h : Sorted logs) (hr : r ∈ logs) :
    logs.find? (·.id = r.id) = some r := by
  obtain ⟨a,b,rfl,below,-⟩ := h.split hr
  rw [find?_append]
  have none : a.find? (·.id = r.id) = none := by
    rw [find?_eq_none]
    intro x hx
    have := below x hx
    simp
    omega
  simp [none]

theorem Sorted.hashOf (h : Sorted logs) (hr : r ∈ logs) :
    hashOf logs r.id = r.entry.logHash := by
  simp [Audit.hashOf,h.find hr]

theorem Sorted.cut (h : Sorted logs) (k : Int) :
    logs.filter (·.id < k)++logs.filter (k ≤ ·.id) = logs := by
  induction logs with
  | nil => rfl
  | cons r logs ih =>
      obtain ⟨above,tail⟩ := pairwise_cons.mp h
      by_cases hk : r.id < k
      · have : ¬k ≤ r.id := by omega
        simp [hk,this,ih tail]
      · have : k ≤ r.id := by omega
        have low : logs.filter (·.id < k) = [] := by
          rw [filter_eq_nil_iff]
          intro x hx
          have := above x hx
          simp
          omega
        have high : logs.filter (k ≤ ·.id) = logs := by
          rw [filter_eq_self]
          intro x hx
          have := above x hx
          simp
          omega
        simp [hk,this,low,high]

theorem Sorted.filter (h : Sorted logs) (keep : Log → Bool) :
    Sorted (logs.filter keep) := List.Pairwise.filter keep h

theorem Sorted.append {a b : List Log} (ha : Sorted a) (hb : Sorted b)
    (above : ∀ x ∈ a, ∀ y ∈ b, x.id < y.id) : Sorted (a++b) :=
  pairwise_append.mpr ⟨ha,hb,above⟩

@[simp] theorem rows_append (a b : List Log) : rows (a++b) = rows a++rows b := by simp [rows]
@[simp] theorem rows_cons (r : Log) (b : List Log) : rows (r::b) = r.entry::rows b := rfl
@[simp] theorem rows_nil : rows [] = [] := rfl

variable {seed : Option String} {w' : World} {ok' : Prop} {k : Int} {a b : List Relink} {job : Job}

theorem lastHash_tip (h : logs = [] → seed = none) :
    lastHash logs = tip seed (rows logs) := by
  by_cases empty : logs = []
  · simp [empty,lastHash,h empty]
  · obtain ⟨a,r,rfl⟩ := eq_nil_or_concat' logs |>.resolve_left empty
    simp [lastHash]

@[simp] theorem relinked_nil (logs : List Log) : relinked [] logs = logs := by
  have : Log.relink [] = id := by
    funext r
    simp [Log.relink]
  simp [relinked,this]

@[simp] theorem relink_id (changed : List Relink) (r : Log) : (r.relink changed).id = r.id := by
  unfold Log.relink
  split <;> rfl

theorem relinked_eq_nil {changed : List Relink} :
    relinked changed logs = [] ↔ logs = [] := by simp [relinked]

theorem sorted_relinked {changed : List Relink} (h : Sorted logs) :
    Sorted (relinked changed logs) := by
  unfold relinked Sorted
  rw [pairwise_map]
  simp only [relink_id]
  exact h

theorem mem_relinked_id {changed : List Relink}
    (h : r ∈ relinked changed logs) : ∃ l ∈ logs, l.id = r.id := by
  obtain ⟨l,hl,rfl⟩ := mem_map.mp h
  exact ⟨l,hl,by simp⟩

theorem getLast_relinked (changed : List Relink) (logs : List Log) :
    (relinked changed logs).getLast? = logs.getLast?.map (Log.relink changed) := by
  simp [relinked,getLast?_map]

/-! ### What an open transaction knows -/

section invariant
variable (sha256 : String → String)

def Db.SoundBelow (db : Db) (k : Int) : Prop :=
  Linked sha256 (chainSeedHash db) (rows (db.logs.filter (·.id < k))) ∧ ∃ r ∈ db.logs, k ≤ r.id

structure Db.Extends (db : Db) (table new : List Log) : Prop where
  above : ∀ r ∈ db.logs, ∀ n ∈ new, r.id < n.id
  sorted : Sorted new
  below : ∀ n ∈ new, n.id < db.nextLogId
  linked : Linked sha256 (lastHash table) (rows new)

/-- A repair's updates make the whole table a chain; a plain append updates nothing. -/
def Job.Ok (db : Db) (job : Job) : Prop :=
  if job.repairing then Linked sha256 (chainSeedHash db) (rows (relinked job.changed db.logs))
  else job.changed = []

/-- The rows below `nextId`, as the repair has them, form a chain that ends in
`h`; it has updated no others. -/
structure Db.Walked (db : Db) (nextId : Int) (h : Option String) (changed : List Relink) : Prop where
  linked : Linked sha256 (chainSeedHash db) (rows ((relinked changed db.logs).filter (·.id < nextId)))
  tip : h = tip (chainSeedHash db) (rows ((relinked changed db.logs).filter (·.id < nextId)))
  behind : ∀ c ∈ changed, c.id < nextId

def Txn.Ok (db : Db) : Txn → Prop
  | .writeLocked _ job => job.Ok sha256 db
  | .writeTip _ job tip => job.Ok sha256 db ∧ tip = db.logs.getLast?.map Log.id
  | .writeRead _ job h => job.Ok sha256 db ∧ h = lastHash (relinked job.changed db.logs)
  | .writeInserted job row =>
      job.Ok sha256 db ∧ db.Extends sha256 (relinked job.changed db.logs) [row]
  | .drainTip _ h => h = lastHash db.logs
  | .drainFlushed _ chained => db.Extends sha256 db.logs chained
  | .purgeMax _ maxId => ∃ r ∈ db.logs, r.id = maxId
  | .purgeBound bound => ∃ r ∈ db.logs, r.id = bound
  | .purgeIds tipId => (∃ r ∈ db.logs, r.id = tipId) ∧ ∃ r ∈ db.logs, tipId < r.id
  | .purgeHash tipId tipHash | .purgeDeleted tipId tipHash =>
      (∃ r ∈ db.logs, r.id = tipId ∧ r.entry.logHash = tipHash) ∧ ∃ r ∈ db.logs, tipId < r.id
  | .repairSeed _ seed => seed = chainSeedHash db
  | .repairVerified _ id | .repairLocked _ id => db.SoundBelow sha256 id
  | .repairPrior _ id => db.SoundBelow sha256 id ∧ db.logs.filter (·.id < id) = []
  | .repairWalk _ _ nextId h _ changed => db.Walked sha256 nextId h changed
  | .repairWindow _ _ nextId h _ changed ids => db.Walked sha256 nextId h changed ∧
      ids = ((db.logs.filter (nextId ≤ ·.id)).take repairBatchRows).map Log.id
  | _ => True

structure Db.Ok (ok : Prop) (db : Db) : Prop where
  sorted : Sorted db.logs
  below : ∀ r ∈ db.logs, r.id < db.nextLogId
  anchored : db.logs = [] → chainSeedHash db = none
  linked : ok → Linked sha256 (chainSeedHash db) (rows db.logs)

structure World.Ok (ok : Prop) (w : World) : Prop where
  db : w.db.Ok sha256 ok
  txns : ∀ p, (w.txns p).Ok sha256 w.db
  chain : ∀ p, (w.txns p).holdsChain → w.chainLock = some p
  settings : ∀ p, (w.txns p).holdsSettings → w.settingsLock = some p

end invariant

/-- A repair that has read the hash it verifies or relinks from and not yet used it up. -/
def Txn.seeded : Txn → Bool
  | .repairSeed .. | .repairWalk .. | .repairWindow .. => true
  | .writeLocked _ job | .writeTip _ job _ | .writeRead _ job _ | .writeInserted job _ => job.repairing
  | _ => false

def Txn.cutting : Txn → Bool
  | .purgeHash .. | .purgeDeleted .. => true
  | _ => false

/-- No purge batch commits while a repair holds a hash it has read, and no repair
commits while a purge batch does. -/
def Apart (w : World) : Event → Prop
  | .cut => ∀ q, (w.txns q).seeded = false
  | .repaired => ∀ q, (w.txns q).cutting = false
  | _ => True

variable {sha256 : String → String} {db : Db} {t : Txn} {ok : Prop} {w : World} {p : Nat}

/-! ### One transaction moves, the tables stay -/

variable {db' : Db}

attribute [local simp] Txn.Ok Txn.holdsChain in
theorem Txn.Ok.same (h : t.Ok sha256 db) (logs : db'.logs = db.logs)
    (settings : db'.settings = db.settings) (next : db.nextLogId ≤ db'.nextLogId) :
    t.Ok sha256 db' := by
  have seed : chainSeedHash db' = chainSeedHash db := by simp [chainSeedHash,settings]
  have ends : ∀ {table new}, db.Extends sha256 table new → db'.Extends sha256 table new :=
    fun e => ⟨by rw [logs]; exact e.above,e.sorted,fun n hn => Int.lt_of_lt_of_le (e.below n hn) next,
      e.linked⟩
  have walked : ∀ {n h c}, db.Walked sha256 n h c → db'.Walked sha256 n h c :=
    fun k => ⟨by rw [seed,logs]; exact k.linked,by rw [seed,logs]; exact k.tip,k.behind⟩
  cases t with
  | writeInserted job row =>
      simp only [Txn.Ok,Job.Ok,seed,logs] at h ⊢
      exact ⟨h.1,ends h.2⟩
  | drainFlushed pending chained =>
      simp only [Txn.Ok,logs] at h ⊢
      exact ends h
  | repairWalk entry id nextId hash locked changed => exact walked h
  | repairWindow entry id nextId hash locked changed ids =>
      simp only [Txn.Ok,logs] at h ⊢
      exact ⟨walked h.1,h.2⟩
  | _ => first | trivial | simpa only [Txn.Ok,Job.Ok,Db.SoundBelow,seed,logs] using h

theorem World.Ok.move (h : w.Ok sha256 ok) (db : w'.db.Ok sha256 ok')
    (txns : w'.txns = Function.update w.txns p t) (own : t.Ok sha256 w'.db)
    (others : ∀ q, q ≠ p → (w.txns q).Ok sha256 w'.db)
    (chain : ∀ q, q ≠ p → w.chainLock = some q → w'.chainLock = some q)
    (mine : t.holdsChain → w'.chainLock = some p)
    (settings : ∀ q, q ≠ p → w.settingsLock = some q → w'.settingsLock = some q)
    (row : t.holdsSettings → w'.settingsLock = some p) : w'.Ok sha256 ok' := by
  refine ⟨db,fun q => ?_,fun q => ?_,fun q => ?_⟩ <;> rw [txns]
  · by_cases hq : q = p
    · subst hq
      simpa using own
    · rw [Function.update_of_ne hq]
      exact others q hq
  · by_cases hq : q = p
    · subst hq
      simpa using mine
    · rw [Function.update_of_ne hq]
      exact fun held => chain q hq (h.chain q held)
  · by_cases hq : q = p
    · subst hq
      simpa using row
    · rw [Function.update_of_ne hq]
      exact fun held => settings q hq (h.settings q held)

theorem Db.Ok.same (h : db.Ok sha256 ok) (logs : db'.logs = db.logs)
    (settings : db'.settings = db.settings) (next : db.nextLogId ≤ db'.nextLogId) :
    db'.Ok sha256 ok := by
  have seed : chainSeedHash db' = chainSeedHash db := by simp [chainSeedHash,settings]
  refine ⟨by rw [logs]; exact h.sorted,?_,by rw [logs,seed]; exact h.anchored,
    by rw [logs,seed]; exact h.linked⟩
  rw [logs]
  exact fun r hr => Int.lt_of_lt_of_le (h.below r hr) next

theorem World.Ok.read (h : w.Ok sha256 ok) (own : t.Ok sha256 w.db)
    (mine : t.holdsChain → w.chainLock = some p) (row : t.holdsSettings → w.settingsLock = some p) :
    (w.set p t).Ok sha256 ok :=
  h.move (p := p) (t := t) h.db rfl own (fun q _ => h.txns q) (fun _ _ hq => hq) mine (fun _ _ hq => hq) row

theorem World.Ok.insert (h : w.Ok sha256 ok) (logs : db'.logs = w.db.logs)
    (settings : db'.settings = w.db.settings) (next : w.db.nextLogId ≤ db'.nextLogId)
    (own : t.Ok sha256 db') (mine : t.holdsChain → w.chainLock = some p)
    (row : t.holdsSettings → w.settingsLock = some p) :
    ({w.set p t with db := db'} : World).Ok sha256 ok :=
  h.move (p := p) (t := t) (h.db.same logs settings next) rfl own
    (fun q _ => (h.txns q).same logs settings next) (fun _ _ hq => hq) mine (fun _ _ hq => hq) row

theorem World.Ok.lockChain (h : w.Ok sha256 ok) (free : w.chainLock = none) (own : t.Ok sha256 w.db)
    (row : t.holdsSettings = false) : ({w.set p t with chainLock := some p} : World).Ok sha256 ok :=
  h.move (p := p) (t := t) h.db rfl own (fun q _ => h.txns q) (fun q _ hq => by simp [free] at hq)
    (fun _ => rfl) (fun _ _ hq => hq) (by simp [row])

theorem World.Ok.lockSettings (h : w.Ok sha256 ok) (free : w.settingsLock = none)
    (own : t.Ok sha256 w.db) (mine : t.holdsChain = false) :
    ({w.set p t with settingsLock := some p} : World).Ok sha256 ok :=
  h.move (p := p) (t := t) h.db rfl own (fun q _ => h.txns q) (fun _ _ hq => hq) (by simp [mine])
    (fun q _ hq => by simp [free] at hq) (fun _ => rfl)

theorem World.Ok.finish (h : w.Ok sha256 ok) (db : db'.Ok sha256 ok')
    (own : t.Ok sha256 db') (mine : t.holdsChain = false) (row : t.holdsSettings = false)
    (others : ∀ q, q ≠ p → (w.txns q).Ok sha256 db') :
    ((w.finish p db').set p t).Ok sha256 ok' := by
  refine h.move (p := p) (t := t) db ?_ own others ?_ (by simp [mine]) ?_ (by simp [row])
  · simp [World.set,World.finish]
  · intro q hq hl
    simp [World.set,World.finish,hl,hq]
  · intro q hq hl
    simp [World.set,World.finish,hl,hq]

theorem World.finish_done (w : World) (p : Nat) (db' : Db) :
    (w.finish p db').set p .done = w.finish p db' := by
  simp [World.set,World.finish]

/-! ### The tables change under a transaction -/

theorem Txn.Ok.appended {new : List Log} (h : t.Ok sha256 db) (free : t.holdsChain = false)
    (logs : db'.logs = db.logs++new) (settings : db'.settings = db.settings)
    (above : ∀ r ∈ db.logs, ∀ n ∈ new, r.id < n.id) : t.Ok sha256 db' := by
  have seed : chainSeedHash db' = chainSeedHash db := by simp [chainSeedHash,settings]
  have stays : ∀ {q : Log → Prop}, (∃ r ∈ db.logs, q r) → ∃ r ∈ db'.logs, q r := by
    intro q hq
    obtain ⟨r,hr,hqr⟩ := hq
    exact ⟨r,by simp [logs,hr],hqr⟩
  cases t with
  | purgeMax kept maxId | purgeBound bound => exact stays h
  | purgeIds tipId | purgeHash tipId tipHash | purgeDeleted tipId tipHash =>
    exact ⟨stays h.1,stays h.2⟩
  | repairSeed entry hash =>
      change hash = chainSeedHash db'
      rw [seed]
      exact h
  | repairVerified entry id =>
      obtain ⟨linked,r,hr,hid⟩ := h
      refine ⟨?_,stays ⟨r,hr,hid⟩⟩
      have none : new.filter (·.id < id) = [] := by
        rw [filter_eq_nil_iff]
        intro n hn
        have := above r hr n hn
        simp
        omega
      rw [seed,logs,filter_append,none,append_nil]
      exact linked
  | _ => trivial

theorem Txn.Ok.repaired (changed : List Relink) (new : List Log) (h : t.Ok sha256 db)
    (free : t.holdsChain = false) (apart : t.cutting = false)
    (logs : db'.logs = relinked changed db.logs++new) (sound : db'.Ok sha256 True)
    (settings : db'.settings = db.settings) : t.Ok sha256 db' := by
  have seed : chainSeedHash db' = chainSeedHash db := by simp [chainSeedHash,settings]
  have stays : ∀ {q : Int → Prop}, (∃ r ∈ db.logs, q r.id) → ∃ r ∈ db'.logs, q r.id := by
    intro q hq
    obtain ⟨r,hr,hqr⟩ := hq
    refine ⟨r.relink changed,?_,by simpa using hqr⟩
    rw [logs]
    exact mem_append_left _ (mem_map_of_mem hr)
  cases t with
  | purgeMax kept maxId => exact stays (q := (· = maxId)) h
  | purgeBound bound => exact stays (q := (· = bound)) h
  | purgeIds tipId => exact ⟨stays (q := (· = tipId)) h.1,stays (q := (tipId < ·)) h.2⟩
  | repairSeed entry hash =>
      change hash = chainSeedHash db'
      rw [seed]
      exact h
  | repairVerified entry id =>
      refine ⟨?_,stays (q := (id ≤ ·)) h.2⟩
      have linked := sound.linked trivial
      rw [←sound.sorted.cut id,rows_append] at linked
      exact (linked_append.mp linked).1
  | _ => trivial

variable {tipId : Int} {tipHash : Option String}

theorem cut_split (sorted : Sorted logs)
    (tip : ∃ r ∈ logs, r.id = tipId ∧ r.entry.logHash = tipHash) :
    ∃ a r, logs = a++r::logs.filter (tipId < ·.id) ∧ r.id = tipId ∧ r.entry.logHash = tipHash ∧
      ∀ x ∈ a, x.id < tipId := by
  obtain ⟨r,hr,rfl,rfl⟩ := tip
  obtain ⟨a,b,rfl,low,high⟩ := sorted.split hr
  have none : a.filter (r.id < ·.id) = [] := by
    rw [filter_eq_nil_iff]
    intro x hx
    have := low x hx
    simp
    omega
  have all : b.filter (r.id < ·.id) = b := by
    rw [filter_eq_self]
    intro x hx
    simp [high x hx]
  refine ⟨a,r,?_,rfl,rfl,low⟩
  simp [filter_append,none,all]

theorem SoundBelow.cut (sorted : Sorted db.logs)
    (tip : ∃ r ∈ db.logs, r.id = tipId ∧ r.entry.logHash = tipHash)
    (rest : ∃ r ∈ db.logs, tipId < r.id) (logs : db'.logs = db.logs.filter (tipId < ·.id))
    (settings : db'.settings = some tipHash) (h : db.SoundBelow sha256 k) :
    db'.SoundBelow sha256 k := by
  obtain ⟨a,r,split,hid,hhash,low⟩ := cut_split sorted tip
  obtain ⟨linked,s,hs,hk⟩ := h
  have seed : chainSeedHash db' = tipHash := by simp [chainSeedHash,settings]
  by_cases past : tipId < k
  · refine ⟨?_,s,?_,hk⟩
    · -- The kept rows below k continue the chain from the recorded row.
      rw [split,filter_append,filter_cons_of_pos (by simpa [hid] using past)] at linked
      rw [rows_append,rows_cons] at linked
      have after := (linked_append.mp linked).2.2
      rw [seed,logs,←hhash]
      exact after
    · rw [logs]
      simp only [mem_filter,hs,true_and]
      simp
      omega
  · obtain ⟨s,hs,high⟩ := rest
    refine ⟨?_,s,by simp [logs,hs,high],by omega⟩
    have none : db'.logs.filter (·.id < k) = [] := by
      rw [filter_eq_nil_iff,logs]
      intro x hx
      have := (mem_filter.mp hx).2
      simp only [decide_eq_true_eq] at this ⊢
      omega
    rw [none]
    trivial

theorem Txn.Ok.cut (h : t.Ok sha256 db)
    (sorted : Sorted db.logs) (tip : ∃ r ∈ db.logs, r.id = tipId ∧ r.entry.logHash = tipHash)
    (rest : ∃ r ∈ db.logs, tipId < r.id) (free : t.holdsSettings = false)
    (apart : t.seeded = false) (logs : db'.logs = db.logs.filter (tipId < ·.id))
    (settings : db'.settings = some tipHash) (next : db'.nextLogId = db.nextLogId) :
    t.Ok sha256 db' := by
  have last : db'.logs.getLast? = db.logs.getLast? := by
    obtain ⟨a,r,split,-⟩ := cut_split sorted tip
    have nonempty : db.logs.filter (tipId < ·.id) ≠ [] := by
      obtain ⟨s,hs,high⟩ := rest
      exact ne_nil_of_mem (mem_filter.mpr ⟨hs,by simpa using high⟩)
    rw [logs]
    conv_rhs => rw [split]
    rw [getLast?_append_of_ne_nil _ (by simp),getLast?_cons,Option.getD_eq_iff.mpr]
    · exact (getLast?_eq_some_getLast nonempty)
    · exact .inl (getLast?_eq_some_getLast nonempty)
  have hash : lastHash db'.logs = lastHash db.logs := by simp [lastHash,last]
  have sub : ∀ r ∈ db'.logs, r ∈ db.logs := fun r hr => by
    rw [logs] at hr
    exact (mem_filter.mp hr).1
  have below : ∀ {k}, db.SoundBelow sha256 k → db'.SoundBelow sha256 k :=
    SoundBelow.cut sorted tip rest logs settings
  have ends : ∀ {new}, db.Extends sha256 db.logs new → db'.Extends sha256 db'.logs new :=
    fun e => ⟨fun r hr => e.above r (sub r hr),e.sorted,by rw [next]; exact e.below,
      by rw [hash]; exact e.linked⟩
  cases t with
  | writeLocked f job =>
      have plain : job.repairing = false := apart
      simpa [Txn.Ok,Job.Ok,plain] using h
  | writeTip f job tip =>
      have plain : job.repairing = false := apart
      simpa [Txn.Ok,Job.Ok,plain,last] using h
  | writeRead f job hsh =>
      have plain : job.repairing = false := apart
      simp only [Txn.Ok,Job.Ok,plain] at h ⊢
      obtain ⟨none,rfl⟩ := h
      simp at none
      simp [none,hash]
  | writeInserted job row =>
      have plain : job.repairing = false := apart
      simp only [Txn.Ok,Job.Ok,plain] at h ⊢
      obtain ⟨none,e⟩ := h
      simp at none
      rw [none,relinked_nil] at e ⊢
      exact ⟨by simp,ends e⟩
  | drainTip pending hsh => simpa [Txn.Ok,hash] using h
  | drainFlushed pending chained => exact ends h
  | repairVerified entry id | repairLocked entry id => exact below h
  | repairPrior entry id =>
      refine ⟨below h.1,?_⟩
      rw [filter_eq_nil_iff]
      exact fun r hr => filter_eq_nil_iff.mp h.2 r (sub r hr)
  | _ => trivial

theorem Db.Extends.commit {db' : Db} {table new : List Log} (h : db.Extends sha256 table new)
    (same : ∀ r ∈ table, ∃ l ∈ db.logs, l.id = r.id) (sorted : Sorted table)
    (anchored : table = [] → chainSeedHash db = none) (below : ∀ r ∈ db.logs, r.id < db.nextLogId)
    (linked : ok → Linked sha256 (chainSeedHash db) (rows table)) (logs : db'.logs = table++new)
    (settings : db'.settings = db.settings) (next : db'.nextLogId = db.nextLogId) :
    db'.Ok sha256 ok := by
  have seed : chainSeedHash db' = chainSeedHash db := by simp [chainSeedHash,settings]
  refine ⟨?_,?_,?_,?_⟩
  · rw [logs]
    refine sorted.append h.sorted fun r hr n hn => ?_
    obtain ⟨l,hl,hid⟩ := same r hr
    rw [←hid]
    exact h.above l hl n hn
  · rw [logs,next]
    intro r hr
    rcases mem_append.mp hr with hr | hr
    · obtain ⟨l,hl,hid⟩ := same r hr
      rw [←hid]
      exact below l hl
    · exact h.below r hr
  · rw [logs,seed]
    intro empty
    exact anchored (append_eq_nil_iff.mp empty).1
  · intro hok
    rw [logs,seed,rows_append,linked_append,←lastHash_tip anchored]
    exact ⟨linked hok,h.linked⟩

theorem Db.Ok.cut (h : db.Ok sha256 ok)
    (tip : ∃ r ∈ db.logs, r.id = tipId ∧ r.entry.logHash = tipHash)
    (rest : ∃ r ∈ db.logs, tipId < r.id) (logs : db'.logs = db.logs.filter (tipId < ·.id))
    (settings : db'.settings = some tipHash) (next : db'.nextLogId = db.nextLogId) :
    db'.Ok sha256 ok := by
  have seed : chainSeedHash db' = tipHash := by simp [chainSeedHash,settings]
  refine ⟨by rw [logs]; exact h.sorted.filter _,?_,?_,?_⟩
  · rw [logs,next]
    exact fun r hr => h.below r (mem_filter.mp hr).1
  · intro empty
    obtain ⟨s,hs,high⟩ := rest
    rw [logs,filter_eq_nil_iff] at empty
    exact absurd (by simpa using high) (empty s hs)
  · intro hok
    obtain ⟨a,r,split,-,hhash,-⟩ := cut_split h.sorted tip
    have linked := h.linked hok
    rw [split,rows_append,rows_cons] at linked
    rw [seed,logs,←hhash]
    exact (linked_append.mp linked).2.2

/-! ### The repair's walk -/

theorem relink_absent {changed : List Relink} (h : ∀ c ∈ changed, c.id ≠ r.id) :
    r.relink changed = r := by
  have none : changed.find? (·.id = r.id) = none := by
    rw [find?_eq_none]
    simpa using h
  simp [Log.relink,none]

theorem relink_append_left (h : ∀ c ∈ a, c.id ≠ r.id) :
    r.relink (a++b) = r.relink b := by
  have none : a.find? (·.id = r.id) = none := by
    rw [find?_eq_none]
    simpa using h
  simp [Log.relink,find?_append,none]

theorem relink_append_right (h : ∀ c ∈ b, c.id ≠ r.id) :
    r.relink (a++b) = r.relink a := by
  have none : b.find? (·.id = r.id) = none := by
    rw [find?_eq_none]
    simpa using h
  simp [Log.relink,find?_append,none]

theorem relinked_congr
    (h : ∀ r ∈ logs, r.relink a = r.relink b) : relinked a logs = relinked b logs :=
  map_congr_left h

theorem relinkWindow_spec (window : List Log) (sorted : Sorted window) (h : Option String) :
    Linked sha256 h (rows (relinked (relinkWindow sha256 h window).2 window)) ∧
      tip h (rows (relinked (relinkWindow sha256 h window).2 window)) =
        (relinkWindow sha256 h window).1 ∧
      ∀ c ∈ (relinkWindow sha256 h window).2, ∃ r ∈ window, c.id = r.id := by
  induction window generalizing h with
  | nil => simp [relinkWindow,relinked,Linked]
  | cons r rest ih =>
      obtain ⟨above,tail⟩ := pairwise_cons.mp sorted
      obtain ⟨linked,ends,inside⟩ := ih tail (some (computeLogHash sha256 r.entry.fields h))
      generalize hout : relinkWindow sha256 (some (computeLogHash sha256 r.entry.fields h)) rest = out
        at linked ends inside
      -- No later row has this row's id, so their updates do not meet.
      have later : ∀ c ∈ out.2, c.id ≠ r.id := by
        intro c hc
        obtain ⟨x,hx,hid⟩ := inside c hc
        have := above x hx
        omega
      by_cases changed : r.entry.previousHash ≠ h ∨
          r.entry.logHash ≠ some (computeLogHash sha256 r.entry.fields h)
      · simp only [relinkWindow,hout,if_pos changed]
        have here : r.relink (⟨r.id,h,some (computeLogHash sha256 r.entry.fields h)⟩::out.2) =
            ⟨r.id,chainEntry sha256 r.entry.fields h⟩ := by simp [Log.relink,chainEntry]
        have apart : relinked (⟨r.id,h,some (computeLogHash sha256 r.entry.fields h)⟩::out.2) rest =
            relinked out.2 rest := by
          refine relinked_congr fun x hx => relink_append_left (a := [_]) fun c hc => ?_
          have := above x hx
          simp only [mem_singleton] at hc
          subst hc
          simp
          omega
        have whole : relinked (⟨r.id,h,some (computeLogHash sha256 r.entry.fields h)⟩::out.2) (r::rest) =
            ⟨r.id,chainEntry sha256 r.entry.fields h⟩::relinked out.2 rest := by
          rw [←apart]
          simp only [relinked,map_cons,here]
        rw [whole]
        refine ⟨⟨⟨rfl,rfl⟩,linked⟩,ends,fun c hc => ?_⟩
        rcases mem_cons.mp hc with rfl | hc
        · exact ⟨r,by simp,rfl⟩
        · obtain ⟨x,hx,hid⟩ := inside c hc
          exact ⟨x,by simp [hx],hid⟩
      · simp only [relinkWindow,hout,if_neg changed]
        push Not at changed
        have whole : relinked out.2 (r::rest) = r::relinked out.2 rest := by
          simp only [relinked,map_cons,relink_absent later]
        rw [whole]
        refine ⟨⟨⟨changed.1,changed.2⟩,?_⟩,?_,fun c hc => ?_⟩
        · rw [changed.2]
          exact linked
        · rw [rows_cons,tip_cons,changed.2]
          exact ends
        · obtain ⟨x,hx,hid⟩ := inside c hc
          exact ⟨x,by simp [hx],hid⟩

@[simp] theorem relinked_append (changed : List Relink) (a b : List Log) :
    relinked changed (a++b) = relinked changed a++relinked changed b := by simp [relinked]

theorem filter_relinked (changed : List Relink) (keep : Int → Bool) (logs : List Log) :
    (relinked changed logs).filter (fun r => keep r.id) =
      relinked changed (logs.filter fun r => keep r.id) := by
  simp [relinked,filter_map,Function.comp_def]

theorem filter_all {keep : Log → Bool} (logs : List Log) (h : ∀ r ∈ logs, keep r) :
    logs.filter keep = logs := filter_eq_self.mpr h

theorem filter_none {keep : Log → Bool} (logs : List Log) (h : ∀ r ∈ logs, ¬keep r) :
    logs.filter keep = [] := filter_eq_nil_iff.mpr h

/-- A table around a window: the rows behind it, the window, the rows after it. -/
structure Around (logs behind window after : List Log) (nextId : Int) : Prop where
  whole : logs = behind++(window++after)
  low : ∀ r ∈ behind, r.id < nextId
  high : ∀ r ∈ window++after, nextId ≤ r.id
  order : ∀ r ∈ window, ∀ x ∈ after, r.id < x.id
  sorted : Sorted window

theorem around (sorted : Sorted db.logs) (nextId : Int) (n : Nat) :
    Around db.logs (db.logs.filter (·.id < nextId)) ((db.logs.filter (nextId ≤ ·.id)).take n)
      ((db.logs.filter (nextId ≤ ·.id)).drop n) nextId := by
  have parts := take_append_drop n (db.logs.filter (nextId ≤ ·.id))
  have split : Sorted ((db.logs.filter (nextId ≤ ·.id)).take n ++
      (db.logs.filter (nextId ≤ ·.id)).drop n) := by
    rw [parts]
    exact sorted.filter _
  obtain ⟨front,-,across⟩ := pairwise_append.mp split
  refine ⟨?_,?_,?_,across,front⟩
  · rw [parts]
    exact (sorted.cut nextId).symm
  · intro r hr
    simpa using (mem_filter.mp hr).2
  · rw [parts]
    intro r hr
    simpa using (mem_filter.mp hr).2

variable {behind window after : List Log} {nextId : Int} {h : Option String} {changed : List Relink}

theorem Around.read (parts : Around db.logs behind window after nextId)
    (walked : db.Walked sha256 nextId h changed) :
    (relinked changed db.logs).filter (·.id ∈ window.map Log.id) = window := by
  have fresh : relinked changed (window++after) = window++after := by
    refine (map_congr_left fun r hr => relink_absent fun c hc => ?_).trans (map_id _)
    have := parts.high r hr
    have := walked.behind c hc
    omega
  rw [filter_relinked changed (· ∈ window.map Log.id)]
  rw [parts.whole,filter_append,filter_append]
  have none : behind.filter (·.id ∈ window.map Log.id) = [] := by
    refine filter_none _ fun r hr hm => ?_
    obtain ⟨x,hx,hid⟩ := mem_map.mp (of_decide_eq_true hm)
    have := parts.low r hr
    have := parts.high x (by simp [hx])
    omega
  have all : window.filter (·.id ∈ window.map Log.id) = window :=
    filter_all _ fun r hr => by simpa using ⟨r,hr,rfl⟩
  have rest : after.filter (·.id ∈ window.map Log.id) = [] := by
    refine filter_none _ fun r hr hm => ?_
    obtain ⟨x,hx,hid⟩ := mem_map.mp (of_decide_eq_true hm)
    have := parts.order x hx r hr
    omega
  rw [none,all,rest,nil_append,append_nil]
  rw [relinked_append] at fresh
  exact (append_inj' fresh (by simp [relinked])).1

theorem Around.walk (parts : Around db.logs behind window after nextId)
    (walked : db.Walked sha256 nextId h changed) {last : Log} (hl : window.getLast? = some last) :
    db.Walked sha256 (last.id+1) (relinkWindow sha256 h window).1
      (changed++(relinkWindow sha256 h window).2) := by
  obtain ⟨linked,ends,inside⟩ := @relinkWindow_spec sha256 window parts.sorted h
  generalize relinkWindow sha256 h window = out at linked ends inside
  have reach : nextId ≤ last.id := parts.high last (by simp [mem_of_getLast? hl])
  have upto : ∀ r ∈ window, r.id ≤ last.id := by
    obtain ⟨front,rfl⟩ := getLast?_eq_some_iff.mp hl
    intro r hr
    rcases mem_append.mp hr with hr | hr
    · exact Int.le_of_lt ((pairwise_append.mp parts.sorted).2.2 r hr last (by simp))
    · rw [mem_singleton.mp hr]
  have old : (relinked changed db.logs).filter (·.id < nextId) = relinked changed behind := by
    rw [filter_relinked changed (· < nextId),parts.whole,filter_append]
    rw [filter_all behind fun r hr => by simpa using parts.low r hr]
    rw [filter_none (window++after) fun r hr => by simpa using parts.high r hr,append_nil]
  have new : (relinked (changed++out.2) db.logs).filter (·.id < last.id+1) =
      relinked changed behind++relinked out.2 window := by
    rw [filter_relinked _ (· < last.id+1),parts.whole,filter_append,filter_append]
    rw [filter_all behind fun r hr => by simpa using by have := parts.low r hr; omega]
    rw [filter_all window fun r hr => by simpa using by have := upto r hr; omega]
    rw [filter_none after fun r hr => by
      have := parts.order last (mem_of_getLast? hl) r hr
      simp
      omega]
    rw [append_nil,relinked_append]
    congr 1
    · refine relinked_congr fun r hr => relink_append_right fun c hc => ?_
      obtain ⟨x,hx,hid⟩ := inside c hc
      have := parts.low r hr
      have := parts.high x (by simp [hx])
      omega
    · refine relinked_congr fun r hr => relink_append_left fun c hc => ?_
      have := walked.behind c hc
      have := parts.high r (by simp [hr])
      omega
  have oldLinked := walked.linked
  have oldTip := walked.tip
  rw [old] at oldLinked oldTip
  refine ⟨?_,?_,?_⟩
  · rw [new,rows_append,linked_append,←oldTip]
    exact ⟨oldLinked,linked⟩
  · rw [new,rows_append,tip_append,←oldTip]
    exact ends.symm
  · intro c hc
    rcases mem_append.mp hc with hc | hc
    · have := walked.behind c hc
      omega
    · obtain ⟨x,hx,hid⟩ := inside c hc
      have := upto x hx
      omega

theorem Db.Walked.finish (sorted : Sorted db.logs) (walked : db.Walked sha256 nextId h changed)
    (empty : db.logs.filter (nextId ≤ ·.id) = []) :
    Linked sha256 (chainSeedHash db) (rows (relinked changed db.logs)) := by
  have all : db.logs.filter (·.id < nextId) = db.logs := by
    have := sorted.cut nextId
    rwa [empty,append_nil] at this
  have linked := walked.linked
  rwa [filter_relinked changed (· < nextId),all] at linked

/-! ### What the statements read -/

theorem verifyFrom_failure {n : Nat}
    (failed : (verifyFrom sha256 seed n logs).firstFailureId = some k) :
    ∃ before r after, logs = before++r::after ∧ r.id = k ∧ Linked sha256 seed (rows before) := by
  induction logs generalizing seed n with simp only [verifyFrom] at failed
  | nil =>
      split at failed <;> cases failed
  | cons r rest ih =>
      by_cases hp : r.entry.previousHash = seed
      · by_cases hl : r.entry.logHash = some (computeLogHash sha256 r.entry.fields seed)
        · simp only [hp,hl,ne_eq,not_true,if_false] at failed
          obtain ⟨before,x,after,rfl,hid,linked⟩ := ih failed
          exact ⟨r::before,x,after,rfl,hid,⟨hp,hl⟩,by rw [hl]; exact linked⟩
        · simp only [hp,hl,ne_eq,not_true,if_false,not_false_eq_true,if_true] at failed
          exact ⟨[],r,rest,rfl,Option.some.inj failed,trivial⟩
      · simp only [hp,ne_eq,not_false_eq_true,if_true] at failed
        exact ⟨[],r,rest,rfl,Option.some.inj failed,trivial⟩

theorem soundBelow_verify (sorted : Sorted db.logs)
    (failed : (verifyAuditChain sha256 (chainSeedHash db) db.logs).firstFailureId = some k) :
    db.SoundBelow sha256 k := by
  obtain ⟨before,r,after,split,rfl,linked⟩ := verifyFrom_failure failed
  have order := sorted
  rw [split] at order
  obtain ⟨-,tail,across⟩ := pairwise_append.mp order
  have front : db.logs.filter (·.id < r.id) = before := by
    rw [split,filter_append]
    rw [filter_all before fun x hx => by simpa using across x hx r (by simp)]
    rw [filter_none (r::after) fun x hx => ?_,append_nil]
    rcases mem_cons.mp hx with rfl | hx
    · simp
    · have := (pairwise_cons.mp tail).1 x hx
      simp
      omega
  refine ⟨by rw [front]; exact linked,r,?_,Int.le_refl _⟩
  rw [split]
  simp

theorem lastHash_linked
    (linked : Linked sha256 seed (rows logs)) (none : lastHash logs = none) : logs = [] := by
  by_contra nonempty
  obtain ⟨a,r,rfl⟩ := eq_nil_or_concat' logs |>.resolve_left nonempty
  rw [rows_append] at linked
  have pass : Passes sha256 (tip seed (rows a)) r.entry := (linked_append.mp linked).2.1
  simp [lastHash,pass.2] at none

theorem lastHash_hashOf (sorted : Sorted logs) :
    (logs.getLast?.map Log.id).bind (hashOf logs) = lastHash logs := by
  cases hl : logs.getLast? with
  | none => simp [lastHash,hl]
  | some r =>
      have : hashOf logs r.id = r.entry.logHash := sorted.hashOf (mem_of_getLast? hl)
      simp [lastHash,hl,this]

theorem chainAll_spec (id : Int) (h : Option String) (fs : List (LogFields DateTime)) :
    Sorted (chainAll sha256 id h fs) ∧
      (∀ r ∈ chainAll sha256 id h fs, id ≤ r.id ∧ r.id < id+fs.length) ∧
      Linked sha256 h (rows (chainAll sha256 id h fs)) := by
  induction fs generalizing id h with
  | nil => simp [chainAll,Sorted,Linked]
  | cons f fs ih =>
      obtain ⟨sorted,range,linked⟩ := ih (id+1) (chainEntry sha256 f h).logHash
      refine ⟨pairwise_cons.mpr ⟨fun r hr => ?_,sorted⟩,fun r hr => ?_,⟨rfl,rfl⟩,linked⟩
      · have := (range r hr).1
        change id < r.id
        omega
      · simp only [length_cons]
        rcases mem_cons.mp hr with rfl | hr
        · exact ⟨Int.le_refl _,by change id < _; omega⟩
        · have := range r hr
          omega

theorem chainAll_extends (hdb : db.Ok sha256 ok) {table : List Log} (fs : List (LogFields DateTime))
    (ha : h = lastHash table) :
    ({db with nextLogId := db.nextLogId+fs.length} : Db).Extends sha256 table
      (chainAll sha256 db.nextLogId h fs) := by
  obtain ⟨sorted,range,linked⟩ := @chainAll_spec sha256 db.nextLogId h fs
  refine ⟨fun r hr n hn => ?_,sorted,fun n hn => (range n hn).2,ha ▸ linked⟩
  have := hdb.below r hr
  have := (range n hn).1
  omega

/-! ### Steps and runs -/

theorem World.Ok.imp (h : w.Ok sha256 ok) (imp : ok' → ok) : w.Ok sha256 ok' :=
  ⟨⟨h.db.sorted,h.db.below,h.db.anchored,fun k => h.db.linked (imp k)⟩,h.txns,h.chain,h.settings⟩

theorem World.Ok.end (h : w.Ok sha256 ok) (db : db'.Ok sha256 ok')
    (others : ∀ q, q ≠ p → (w.txns q).Ok sha256 db') : (w.finish p db').Ok sha256 ok' := by
  rw [←World.finish_done]
  exact h.finish (t := .done) db trivial rfl rfl others

theorem World.Ok.others_free (h : w.Ok sha256 ok) (held : (w.txns p).holdsChain) {q : Nat}
    (hq : q ≠ p) : (w.txns q).holdsChain = false := by
  by_contra both
  have first := h.chain p held
  have second := h.chain q (by simpa using both)
  exact hq (Option.some.inj (second.symm.trans first))

theorem World.Ok.others_unlocked (h : w.Ok sha256 ok) (held : (w.txns p).holdsSettings) {q : Nat}
    (hq : q ≠ p) : (w.txns q).holdsSettings = false := by
  by_contra both
  have first := h.settings p held
  have second := h.settings q (by simpa using both)
  exact hq (Option.some.inj (second.symm.trans first))

theorem World.Ok.at (h : w.Ok sha256 ok) (ht : w.txns p = t) : t.Ok sha256 w.db := ht ▸ h.txns p

theorem writeCommit_ok {row : Log} (h : w.Ok sha256 ok)
    (ht : w.txns p = .writeInserted job row) (plain : job.repairing = false) :
    (w.finish p {w.db with logs := relinked job.changed w.db.logs++[row]}).Ok sha256 ok := by
  have held : (w.txns p).holdsChain := by simp [ht,Txn.holdsChain]
  obtain ⟨job_ok,ext⟩ := h.at ht
  have unchanged : job.changed = [] := by simpa [Job.Ok,plain] using job_ok
  rw [unchanged,relinked_nil] at ext ⊢
  refine h.end (ext.commit (fun r hr => ⟨r,hr,rfl⟩) h.db.sorted h.db.anchored h.db.below h.db.linked
    rfl rfl rfl) fun q hq => ?_
  exact (h.txns q).appended (h.others_free held hq) rfl rfl ext.above

theorem repairCommit_ok {row : Log} (h : w.Ok sha256 ok) (apart : Apart w .repaired)
    (ht : w.txns p = .writeInserted job row) (repairing : job.repairing = true) :
    (w.finish p {w.db with logs := relinked job.changed w.db.logs++[row]}).Ok sha256 True := by
  have held : (w.txns p).holdsChain := by simp [ht,Txn.holdsChain]
  obtain ⟨job_ok,ext⟩ := h.at ht
  have linked : Linked sha256 (chainSeedHash w.db) (rows (relinked job.changed w.db.logs)) := by
    simpa [Job.Ok,repairing] using job_ok
  have sound : ({w.db with logs := relinked job.changed w.db.logs++[row]} : Db).Ok sha256 True :=
    ext.commit (fun _ hr => mem_relinked_id hr) (sorted_relinked h.db.sorted)
      (fun empty => h.db.anchored (relinked_eq_nil.mp empty)) h.db.below (fun _ => linked) rfl rfl rfl
  exact h.end sound fun q hq =>
    (h.txns q).repaired job.changed [row] (h.others_free held hq) (apart q) rfl sound rfl

theorem repairEarly_ok {f : LogFields DateTime} (h : w.Ok sha256 ok)
    (apart : Apart w .repaired) (ht : w.txns p = .writeLocked f job) (repairing : job.repairing = true) :
    ((w.finish p {w.db with logs := relinked job.changed w.db.logs}).set p (.write f)).Ok
      sha256 True := by
  have held : (w.txns p).holdsChain := by simp [ht,Txn.holdsChain]
  have job_ok : job.Ok sha256 w.db := h.at ht
  have linked : Linked sha256 (chainSeedHash w.db) (rows (relinked job.changed w.db.logs)) := by
    simpa [Job.Ok,repairing] using job_ok
  have sound : ({w.db with logs := relinked job.changed w.db.logs} : Db).Ok sha256 True := by
    refine ⟨sorted_relinked h.db.sorted,fun r hr => ?_,
      fun empty => h.db.anchored (relinked_eq_nil.mp empty),fun _ => linked⟩
    obtain ⟨l,hl,hid⟩ := mem_relinked_id hr
    rw [←hid]
    exact h.db.below l hl
  exact h.finish sound trivial rfl rfl fun q hq =>
    (h.txns q).repaired job.changed [] (h.others_free held hq) (apart q) (by simp) sound rfl

theorem drainCommit_ok {pending : List PendingAuditLog} {chained : List Log} (h : w.Ok sha256 ok)
    (ht : w.txns p = .drainFlushed pending chained) :
    (w.finish p {w.db with
      logs := w.db.logs++chained
      pending := w.db.pending.filter fun r => !pending.any (·.id = r.id)}).Ok sha256 ok := by
  have held : (w.txns p).holdsChain := by simp [ht,Txn.holdsChain]
  have ext : w.db.Extends sha256 w.db.logs chained := h.at ht
  refine h.end (ext.commit (fun r hr => ⟨r,hr,rfl⟩) h.db.sorted h.db.anchored h.db.below h.db.linked
    rfl rfl rfl) fun q hq => ?_
  exact (h.txns q).appended (h.others_free held hq) rfl rfl ext.above

theorem purgeCommit_ok (h : w.Ok sha256 ok)
    (apart : Apart w .cut) (ht : w.txns p = .purgeDeleted tipId tipHash) :
    (w.finish p {w.db with
      settings := some tipHash
      logs := w.db.logs.filter (tipId < ·.id)}).Ok sha256 ok := by
  have held : (w.txns p).holdsSettings := by simp [ht,Txn.holdsSettings]
  obtain ⟨tip,rest⟩ := h.at ht
  exact h.end (h.db.cut tip rest rfl rfl rfl) fun q hq =>
    (h.txns q).cut h.db.sorted tip rest (h.others_unlocked held hq) (apart q) rfl rfl rfl

theorem begin_ok (h : w.Ok sha256 ok) (opening : t.opening) : (w.set p t).Ok sha256 ok := by
  cases t with
  | write f | defer f | drain limit | purge kept | repair entry => exact h.read trivial nofun nofun
  | _ => simp [Txn.opening] at opening

theorem World.Ok.chained (h : w.Ok sha256 ok) {s : Txn} (ht : w.txns p = s) (held : s.holdsChain)
    (own : t.Ok sha256 w.db) (row : t.holdsSettings = false) : (w.set p t).Ok sha256 ok := by
  have lock := h.chain p (by rw [ht]; exact held)
  exact h.read own (fun _ => lock) (by simp [row])

theorem World.Ok.purging (h : w.Ok sha256 ok) {s : Txn} (ht : w.txns p = s) (held : s.holdsSettings)
    (own : t.Ok sha256 w.db) (mine : t.holdsChain = false) : (w.set p t).Ok sha256 ok := by
  have lock := h.settings p (by rw [ht]; exact held)
  exact h.read own (by simp [mine]) (fun _ => lock)

theorem repairEnd_ok {ids : List Int} (sorted : Sorted db.logs)
    (walked : db.Walked sha256 nextId h changed)
    (hi : ids = ((db.logs.filter (nextId ≤ ·.id)).take repairBatchRows).map Log.id)
    (none : (relinked changed db.logs).filter (·.id ∈ ids) = []) (locked : List Int) :
    (⟨locked,changed,true⟩ : Job).Ok sha256 db := by
  have parts := around sorted nextId repairBatchRows
  rw [hi,parts.read walked,take_eq_nil_iff] at none
  exact walked.finish sorted (none.resolve_left (by decide))

theorem tip_read (sorted : Sorted db.logs) (changed : List Relink) :
    (db.logs.getLast?.map Log.id).bind (hashOf (relinked changed db.logs)) =
      lastHash (relinked changed db.logs) := by
  rw [←lastHash_hashOf (sorted_relinked sorted),getLast_relinked,Option.map_map]
  congr 2
  funext r
  simp

theorem purgeBound_ok {kept : Log → Bool} {maxId : Int} (h : ∃ r ∈ db.logs, r.id = maxId) :
    ∃ r ∈ db.logs, r.id = ((db.logs.find? kept).map Log.id).getD maxId := by
  cases hf : db.logs.find? kept with
  | none => exact h
  | some r => exact ⟨r,mem_of_find?_eq_some hf,rfl⟩

theorem purgeIds_ok {bound : Int} {log : Log} (h : ∃ r ∈ db.logs, r.id = bound)
    (last : ((db.logs.filter (·.id < bound)).take purgeBatchRows).getLast? = some log) :
    (∃ r ∈ db.logs, r.id = log.id) ∧ ∃ r ∈ db.logs, log.id < r.id := by
  obtain ⟨hm,low⟩ := mem_filter.mp (mem_of_mem_take (mem_of_getLast? last))
  obtain ⟨r,hr,rfl⟩ := h
  exact ⟨⟨log,hm,rfl⟩,r,hr,by simpa using low⟩

theorem repairFrom_ok {hash : String} (sound : db.SoundBelow sha256 k)
    (prior : lastHash (db.logs.filter (·.id < k)) = some hash) :
    db.Walked sha256 k (some hash) [] := by
  have nonempty : db.logs.filter (·.id < k) = [] → chainSeedHash db = none := by
    intro empty
    rw [empty] at prior
    cases prior
  refine ⟨by simpa using sound.1,?_,by simp⟩
  rw [relinked_nil,←lastHash_tip nonempty]
  exact prior.symm

theorem repairAnchor_ok (empty : db.logs.filter (·.id < k) = []) :
    db.Walked sha256 k (chainSeedHash db) [] := by
  refine ⟨?_,?_,by simp⟩ <;> rw [relinked_nil,empty]
  · trivial
  · rfl

theorem plain_ok {e : Event} (h : w.Ok sha256 ok) (apart : Apart w e)
    (step : Step sha256 w e w') (plain : e ≠ .repaired) : w'.Ok sha256 ok := by
  have sorted := h.db.sorted
  cases step with
  | begin _ opening => exact begin_ok h opening
  | rollback p => exact h.end h.db fun q _ => h.txns q
  | writeLock ht free => exact h.lockChain free (by simp [Txn.Ok,Job.Ok,Job.none]) rfl
  | writeSelect ht | repairSelect ht => exact h.chained ht rfl ⟨h.at ht,rfl⟩ rfl
  | writeRead ht _ =>
      obtain ⟨job_ok,rfl⟩ := h.at ht
      exact h.chained ht rfl ⟨job_ok,tip_read sorted _⟩ rfl
  | @writeInsert p f job hash ht =>
      obtain ⟨job_ok,hh⟩ := h.at ht
      have lock := h.chain p (by rw [ht]; rfl)
      exact h.insert rfl rfl (Int.le_add_one (Int.le_refl _)) ⟨job_ok,chainAll_extends h.db [f] hh⟩
        (fun _ => lock) nofun
  | writeCommit ht append => exact writeCommit_ok h ht append
  | repairCommit | repairEarly => exact absurd rfl plain
  | deferInsert ht => exact h.insert rfl rfl (Int.le_refl _) trivial nofun nofun
  | deferCommit ht =>
      exact h.end (h.db.same rfl rfl (Int.le_refl _)) fun q _ =>
        (h.txns q).same rfl rfl (Int.le_refl _)
  | drainSelect ht _ => exact h.read trivial nofun nofun
  | drainLock ht free => exact h.lockChain free trivial rfl
  | drainTip ht => exact h.chained ht rfl rfl rfl
  | @drainFlush p pending hash fs ht decoded =>
      have hh : hash = lastHash w.db.logs := h.at ht
      have lock := h.chain p (by rw [ht]; rfl)
      have next : w.db.nextLogId ≤ w.db.nextLogId+fs.length := by omega
      exact h.insert rfl rfl next (chainAll_extends h.db fs hh) (fun _ => lock) nofun
  | drainCommit ht => exact drainCommit_ok h ht
  | purgeLock ht free _ => exact h.lockSettings free trivial rfl
  | purgeMax ht last => exact h.purging ht rfl ⟨_,mem_of_getLast? last,rfl⟩ rfl
  | purgeBound ht => exact h.purging ht rfl (purgeBound_ok (h.at ht)) rfl
  | purgeIds ht last => exact h.purging ht rfl (purgeIds_ok (h.at ht) last) rfl
  | purgeHash ht =>
      obtain ⟨⟨r,hr,rfl⟩,rest⟩ := h.at ht
      exact h.purging ht rfl ⟨⟨r,hr,rfl,(sorted.hashOf hr).symm⟩,rest⟩ rfl
  | purgeDelete ht _ =>
      have known := h.at ht
      exact h.purging ht rfl known rfl
  | purgeCommit ht => exact purgeCommit_ok h apart ht
  | repairSeed ht => exact h.read rfl nofun nofun
  | repairVerify ht failed =>
      have seed := h.at ht
      subst seed
      exact h.read (soundBelow_verify sorted failed) nofun nofun
  | repairLock ht free =>
      have known := h.at ht
      exact h.lockChain free known rfl
  | repairFrom ht prior => exact h.chained ht rfl (repairFrom_ok (h.at ht) prior) rfl
  | repairPrior ht prior =>
      have sound := h.at ht
      exact h.chained ht rfl ⟨sound,lastHash_linked sound.1 prior⟩ rfl
  | repairAnchor ht => exact h.chained ht rfl (repairAnchor_ok (h.at ht).2) rfl
  | @repairFetch p entry id nextId hash locked ids changed r ht _ last =>
      obtain ⟨walked,rfl⟩ := h.at ht
      have parts := around sorted nextId repairBatchRows
      rw [parts.read walked] at last ⊢
      exact h.chained ht rfl (parts.walk walked last) rfl
  | repairEnd ht none =>
      obtain ⟨walked,hi⟩ := h.at ht
      exact h.chained ht rfl (repairEnd_ok sorted walked hi none _) rfl

theorem step_ok {e : Event} (h : w.Ok sha256 ok) (apart : Apart w e)
    (step : Step sha256 w e w') : w'.Ok sha256 (ok ∨ e = .repaired) := by
  by_cases plain : e = .repaired
  · subst plain
    cases step with
    | repairCommit ht repairing => exact (repairCommit_ok h apart ht repairing).imp fun _ => trivial
    | repairEarly ht repairing => exact (repairEarly_ok h apart ht repairing).imp fun _ => trivial
  · exact (plain_ok h apart step plain).imp fun k => k.resolve_right plain

/-- No transaction is open, the ids are in order below the sequence, and a table
without rows has no checkpoint. -/
structure World.Start (w : World) : Prop where
  idle : ∀ p, w.txns p = .done
  sorted : Sorted w.db.logs
  below : ∀ r ∈ w.db.logs, r.id < w.db.nextLogId
  anchored : w.db.logs = [] → chainSeedHash w.db = none

theorem World.Start.sound (h : w.Start) :
    w.Ok sha256 (verifyAuditChain sha256 (chainSeedHash w.db) w.db.logs).valid := by
  refine ⟨⟨h.sorted,h.below,h.anchored,verifyAuditChain_valid.mp⟩,fun p => ?_,fun p => ?_,fun p => ?_⟩ <;>
    rw [h.idle p]
  · trivial
  · exact nofun
  · exact nofun

theorem run_ok {es : List Event} (h : w.Ok sha256 ok)
    (run : Run (Guarded (Step sha256) Apart) w es w') : w'.Ok sha256 (ok ∨ .repaired ∈ es) := by
  induction run with
  | nil => exact h.imp fun k => by simpa using k
  | snoc _ step ih =>
      refine (step_ok ih step.1 step.2).imp fun k => ?_
      simp only [mem_append,mem_singleton] at k
      tauto

/-- From a table that verifies, or once a repair has committed, every committed
state verifies, in every run in which purge batches and repairs stay apart. -/
theorem audit_chain_verifies {es : List Event} {w' : World} (start : w.Start)
    (run : Run (Guarded (Step sha256) Apart) w es w')
    (due : (verifyAuditChain sha256 (chainSeedHash w.db) w.db.logs).valid ∨ .repaired ∈ es) :
    (verifyAuditChain sha256 (chainSeedHash w'.db) w'.db.logs).valid :=
  verifyAuditChain_valid.mpr ((run_ok start.sound run).db.linked due)

def lostHashes : World where
  db := ⟨[⟨1,⟨loginFields,none,some ""⟩⟩,⟨2,⟨logoutFields,some "",some ""⟩⟩],some none,[],3,1⟩
  txns := fun _ => .done
  chainLock := none
  settingsLock := none

def tagged (text : String) : String := "sha256:" ++ text

theorem tagged_ne (text : String) : tagged text ≠ "" := by
  intro h
  have := congrArg String.toList h
  simp [tagged] at this

theorem lostHashes_failure :
    (verifyAuditChain tagged (chainSeedHash lostHashes.db) lostHashes.db.logs).firstFailureId =
      some 1 := by
  simp [verifyAuditChain,verifyFrom,lostHashes,chainSeedHash,computeLogHash,(tagged_ne _).symm]

theorem lostHashes_cut {new : Log}
    (linked : Linked tagged none (rows (relinked changed lostHashes.db.logs))) :
    (verifyAuditChain tagged (some "")
      ((relinked changed lostHashes.db.logs++[new]).filter (1 < ·.id))).valid = false := by
  obtain ⟨pass,next,-⟩ := linked
  rw [pass.logHash] at next
  have named : (Log.relink changed ⟨2,⟨logoutFields,some "",some ""⟩⟩).entry.previousHash ≠ some "" := by
    rw [next.1]
    exact fun h => tagged_ne _ (Option.some.inj h)
  simp [lostHashes,relinked,verifyAuditChain,verifyFrom,named]

theorem lostHashes_start : lostHashes.Start := by
  refine ⟨fun _ => rfl,by simp [Sorted,lostHashes],?_,by simp [lostHashes]⟩
  intro r hr
  simp only [lostHashes,mem_cons,not_mem_nil,or_false] at hr ⊢
  rcases hr with rfl | rfl <;> decide

theorem purge_across_repair : ∃ es w', Run (Step tagged) lostHashes es w' ∧ .repaired ∈ es ∧
    (verifyAuditChain tagged (chainSeedHash w'.db) w'.db.logs).valid = false := by
  have run : Run (Step tagged) lostHashes [] lostHashes := .nil _
  -- A purge batch reads the first row's hash.
  have run := run.snoc (.begin (p := 0) (t := .purge fun r => 2 ≤ r.id) rfl rfl)
  have run := run.snoc (.purgeLock (p := 0) rfl rfl rfl)
  have run := run.snoc (.purgeMax (p := 0) rfl rfl)
  have run := run.snoc (.purgeBound (p := 0) rfl)
  have run := run.snoc (.purgeIds (p := 0) rfl rfl)
  have run := run.snoc (.purgeHash (p := 0) rfl)
  -- A repair runs to its commit.
  have run := run.snoc (.begin (p := 1) (t := .repair fun _ _ => loginFields) rfl rfl)
  have run := run.snoc (.repairSeed (p := 1) rfl)
  have run := run.snoc (.repairVerify (p := 1) rfl lostHashes_failure)
  have run := run.snoc (.repairLock (p := 1) rfl rfl)
  have run := run.snoc (.repairPrior (p := 1) rfl rfl)
  have run := run.snoc (.repairAnchor (p := 1) rfl)
  have run := run.snoc (.repairSelect (p := 1) rfl)
  have run := run.snoc (.repairFetch (p := 1) rfl (fun i _ q hq => by
    by_cases hz : q = 0
    · subst hz
      exact id
    · simp [World.set,Function.update,hq,hz,lostHashes,Txn.locks]) rfl)
  have run := run.snoc (.repairSelect (p := 1) rfl)
  have run := run.snoc (.repairEnd (p := 1) rfl (by rfl))
  have run := run.snoc (.writeSelect (p := 1) rfl)
  have run := run.snoc (.writeRead (p := 1) rfl (fun i _ q hq => by
    by_cases hz : q = 0
    · subst hz
      exact id
    · simp [World.set,Function.update,hq,hz,lostHashes,Txn.locks]))
  have run := run.snoc (.writeInsert (p := 1) rfl)
  have run := run.snoc (.repairCommit (p := 1) rfl rfl)
  have run := run.snoc (.purgeDelete (p := 0) rfl (fun r _ _ q hq => by
    by_cases hz : q = 1
    · subst hz
      exact id
    · simp [World.set,World.finish,Function.update,hq,hz,lostHashes,Txn.locks]))
  have run := run.snoc (.purgeCommit (p := 0) rfl)
  refine ⟨_,_,run,by simp,?_⟩
  have spec := (@relinkWindow_spec tagged lostHashes.db.logs (by simp [Sorted,lostHashes]) none).1
  exact lostHashes_cut spec
theorem audit_chain_broken_by_purge :
    ¬∀ (sha256 : String → String) (w w' : World) (es : List Event), w.Start →
      Run (Step sha256) w es w' →
      ((verifyAuditChain sha256 (chainSeedHash w.db) w.db.logs).valid ∨ .repaired ∈ es) →
      (verifyAuditChain sha256 (chainSeedHash w'.db) w'.db.logs).valid := by
  intro claim
  obtain ⟨es,w',run,repaired,invalid⟩ := purge_across_repair
  have valid := claim tagged lostHashes w' es lostHashes_start run (.inr repaired)
  exact absurd (invalid.symm.trans valid) (by decide)

theorem lostHashes_repair : ∃ es w', Run (Guarded (Step tagged) Apart) lostHashes es w' ∧
    .repaired ∈ es := by
  have free : ∀ (w : World) (i : Int), (∀ q, q ≠ 1 → w.txns q = .done) → w.free 1 i := by
    intro w i h q hq
    rw [h q hq]
    exact id
  have run : Run (Guarded (Step tagged) Apart) lostHashes [] lostHashes := .nil _
  have run := run.also (.begin (p := 1) (t := .repair fun _ _ => loginFields) rfl rfl) trivial
  have run := run.also (.repairSeed (p := 1) rfl) trivial
  have run := run.also (.repairVerify (p := 1) rfl lostHashes_failure) trivial
  have run := run.also (.repairLock (p := 1) rfl rfl) trivial
  have run := run.also (.repairPrior (p := 1) rfl rfl) trivial
  have run := run.also (.repairAnchor (p := 1) rfl) trivial
  have run := run.also (.repairSelect (p := 1) rfl) trivial
  have run := run.also (.repairFetch (p := 1) rfl (fun i _ => free _ i fun q hq => by
    simp [World.set,Function.update,hq,lostHashes]) rfl) trivial
  have run := run.also (.repairSelect (p := 1) rfl) trivial
  have run := run.also (.repairEnd (p := 1) rfl (by rfl)) trivial
  refine ⟨_,_,run.also (.repairEarly (p := 1) rfl rfl) fun q => ?_,by simp⟩
  by_cases hq : q = 1
  · subst hq
    rfl
  · simp [World.set,Function.update,hq,lostHashes,Txn.cutting]

theorem audit_chain_verifies_repaired : ∃ es w', Run (Guarded (Step tagged) Apart) lostHashes es w' ∧
    .repaired ∈ es ∧ (verifyAuditChain tagged (chainSeedHash w'.db) w'.db.logs).valid := by
  obtain ⟨es,w',run,repaired⟩ := lostHashes_repair
  exact ⟨es,w',run,repaired,audit_chain_verifies lostHashes_start run (.inr repaired)⟩

end CircuitBreaker.Audit
