import CircuitBreaker.JournalRules
import CircuitBreaker.LifecycleState

/-! What the operation directories satisfy at every point of every request, and what
each action needs for that. -/

namespace CircuitBreaker.Lifecycle
open DiskProgram List

/-! Directories. -/

variable {m : String}

theorem lookup_other {α : Type} {k : String} (h : m ≠ k) (a : α) (l : List (String × α)) :
    ((k,a)::l).lookup m = l.lookup m := by
  have : (m == k) = false := by simpa using h
  rw [lookup_cons,this]

theorem lookup_map_change {name : String} {f : OpDir → OpDir} (l : List (String × OpDir)) :
    (l.map fun e => if e.1 = name then (e.1,f e.2) else e).lookup m =
      if m = name then (l.lookup m).map f else l.lookup m := by
  induction l with
  | nil => simp
  | cons e l ih =>
    obtain ⟨k,dir⟩ := e
    by_cases hm : m = k
    · subst hm
      by_cases hk : m = name <;> simp [hk]
    · rw [map_cons,lookup_other hm]
      by_cases hk : k = name
      · simpa only [hk,if_true,lookup_other (hk ▸ hm)] using ih
      · simpa only [hk,if_false,lookup_other hm] using ih

@[simp] theorem dir_change (d : Disk) (name m : String) (f : OpDir → OpDir) :
    (d.change name f).dir m = if m = name then (d.dir m).map f else d.dir m :=
  lookup_map_change d.operations

@[simp] theorem names_change (d : Disk) (name : String) (f : OpDir → OpDir) :
    (d.change name f).names = d.names := by
  simp only [Disk.change,Disk.names,map_map]
  apply map_congr_left
  intro e _
  by_cases h : e.1 = name <;> simp [h]

theorem lookup_eq_none_iff {l : List (String × OpDir)} :
    l.lookup m = none ↔ m ∉ l.map Prod.fst := by
  induction l with
  | nil => simp
  | cons e l ih =>
    obtain ⟨k,dir⟩ := e
    by_cases hm : m = k
    · simp [hm]
    · simpa [lookup_other hm,hm] using ih

variable {d : Disk}

attribute [local simp] Act.apply

theorem dir_eq_none : d.dir m = none ↔ m ∉ d.names := lookup_eq_none_iff

theorem dir_removeStaging {name : String} (h : m ≠ name) :
    ((Act.removeStaging name).apply d).dir m = d.dir m := by
  simp only [Act.apply,Disk.dir]
  induction d.operations with
  | nil => rfl
  | cons e l ih =>
    obtain ⟨k,dir⟩ := e
    by_cases hk : k = name
    · simpa [filter_cons,hk,lookup_other h] using ih
    · have : (k != name) = true := by simpa using hk
      simp only [filter_cons,this,if_true,lookup_cons,ih]

theorem dir_mkdir {name : String} (h : m ≠ name) :
    ((Act.mkdir name).apply d).dir m = d.dir m := by
  simp [Act.apply,Disk.dir,lookup_append,lookup_other h]

theorem dir_mkdir_self {name : String} (h : name ∉ d.names) :
    ((Act.mkdir name).apply d).dir name = some {} := by
  simp [Act.apply,Disk.dir,lookup_append,lookup_eq_none_iff.2 h]

theorem dir_replace {source target : String} (hs : m ≠ source) (ht : m ≠ target) :
    ((Act.replace source target).apply d).dir m = d.dir m := by
  simp only [Act.apply,Disk.dir]
  induction d.operations with
  | nil => rfl
  | cons e l ih =>
    obtain ⟨k,dir⟩ := e
    by_cases hk : k = source
    · simpa [hk,lookup_other hs,lookup_other ht] using ih
    · simp only [map_cons,hk,if_false,lookup_cons,ih]

theorem dir_replace_target {source target : String} (h : target ∉ d.names) :
    ((Act.replace source target).apply d).dir target = d.dir source := by
  simp only [Act.apply,Disk.dir,Disk.names] at h ⊢
  generalize d.operations = l at h
  induction l with
  | nil => rfl
  | cons e l ih =>
    obtain ⟨k,dir⟩ := e
    simp only [map_cons,mem_cons,not_or] at h
    by_cases hk : k = source
    · simp [hk]
    · simp only [map_cons,hk,if_false,lookup_other h.1,lookup_other (Ne.symm hk),ih h.2]

/-! Sequence numbers in use. -/

/-- What carries a sequence number: a journal record that became durable, or an event
that was written. -/
inductive Use where
  | record (op : String) (sequence : Nat)
  | event (op : String) (sequence : Nat) (event : Json)

def Use.op : Use → String
  | .record op _ | .event op _ _ => op

def Use.sequence : Use → Nat
  | .record _ n | .event _ n _ => n

def Use.isEvent : Use → Bool
  | .record .. => false
  | .event .. => true

/-- A later use of an operation carries a greater number, or is the event of the record. -/
def Use.Before (u v : Use) : Prop :=
  u.op = v.op → u.sequence < v.sequence ∨
    u.sequence = v.sequence ∧ u.isEvent = false ∧ v.isEvent = true

def recordOf (op : String) (j : Option Journal) : List Use :=
  ((j.bind Journal.last).map fun c => Use.record op c.sequence).toList

def Act.uses (d : Disk) : Act → List Use
  | .writeJournal name j => if hidden name then [] else recordOf name (some j)
  | .replace source target => recordOf target ((d.dir source).bind OpDir.journal)
  | .writeEvent op n event => [.event op n event]
  | _ => []

structure Store where
  disk : Disk := {}
  used : List Use := []

def device (a : Act) (s : Store) : Disk × Store :=
  (a.apply s.disk,⟨a.apply s.disk,s.used ++ a.uses s.disk⟩)

/-! The invariant. -/

/-- Operation `name` has journal `j` and counter `n`. -/
def Disk.Holds (d : Disk) (name : String) (n : Nat) (j : Journal) : Prop :=
  hidden name = false ∧ d.dir name = some ⟨some n,some j⟩

def Disk.Live (d : Disk) (name : String) : Prop :=
  ∃ n j, d.Holds name n j ∧ j.inProgress = true ∧ (n : Int) < maxSafe

def Journal.pending (j : Journal) : Bool := j.kind == .transaction && !j.finished

def Disk.Pending (d : Disk) (name : String) : Prop := ∃ n j, d.Holds name n j ∧ j.pending = true

structure Sound (name : String) (n : Nat) (j : Journal) : Prop where
  valid : j.validate = none
  named : j.operationId = name
  generation : j.generation ≤ j.durable
  durable : j.durable ≤ n
  safe : (n : Int) ≤ maxSafe

structure Store.Inv (s : Store) : Prop where
  nodup : s.disk.names.Nodup
  sound : ∀ name dir, hidden name = false → s.disk.dir name = some dir →
    ∃ n j, dir = ⟨some n,some j⟩ ∧ Sound name n j
  spent : ∀ u ∈ s.used, ∃ n j, s.disk.Holds u.op n j ∧ u.sequence ≤ n
  ordered : s.used.Pairwise Use.Before
  single : ∀ a b, s.disk.Live a → s.disk.Live b → a = b
  alone : ∀ a b, s.disk.Pending a → s.disk.Live b ∨ s.disk.Pending b → a = b

theorem Store.Inv.empty : Store.Inv {} where
  nodup := nodup_nil
  sound := by simp [Disk.dir]
  spent := by simp
  ordered := List.Pairwise.nil
  single := by simp [Disk.Live,Disk.Holds,Disk.dir]
  alone := by simp [Disk.Pending,Disk.Holds,Disk.dir]

section
variable {s : Store}

theorem Store.Inv.holds_sound (h : s.Inv) {name : String} {n : Nat} {j : Journal}
    (hold : s.disk.Holds name n j) : Sound name n j := by
  obtain ⟨n',j',he,hs⟩ := h.sound name _ hold.1 hold.2
  simp only [OpDir.mk.injEq,Option.some.injEq] at he
  obtain ⟨rfl,rfl⟩ := he
  exact hs

theorem Disk.Holds.unique {d : Disk} {name : String} {n n' : Nat} {j j' : Journal}
    (h : d.Holds name n j) (h' : d.Holds name n' j') : n' = n ∧ j' = j := by
  have := h.2.symm.trans h'.2
  simp only [Option.some.injEq,OpDir.mk.injEq] at this
  exact ⟨this.1.symm,this.2.symm⟩

theorem Disk.Holds.mem {d : Disk} {name : String} {n : Nat} {j : Journal}
    (h : d.Holds name n j) : name ∈ d.names := by
  by_contra hn
  rw [←dir_eq_none,h.2] at hn
  simp at hn

theorem Store.Inv.hidden (h : s.Inv) {d : Disk} (nodup : d.names.Nodup)
    (same : ∀ m, hidden m = false → d.dir m = s.disk.dir m) : Store.Inv ⟨d,s.used⟩ := by
  have holds : ∀ m n j, d.Holds m n j ↔ s.disk.Holds m n j := fun m n j =>
    and_congr_right fun hm => by rw [same m hm]
  have live : ∀ m, d.Live m ↔ s.disk.Live m := fun m => by simp only [Disk.Live,holds]
  have pending : ∀ m, d.Pending m ↔ s.disk.Pending m := fun m => by simp only [Disk.Pending,holds]
  refine ⟨nodup,fun name dir hn hd => h.sound name dir hn (same name hn ▸ hd),?_,h.ordered,?_,?_⟩
  · simpa only [holds] using h.spent
  · simpa only [live] using h.single
  · simpa only [live,pending] using h.alone

end

/-! What no later request undoes. -/

/-- Every record of `cs` is still in `ds`; a step may have taken the place of an
earlier step of its state. -/
def RecordsKept (cs ds : List Checkpoint) : Prop :=
  ∀ (i : Nat) (c : Checkpoint), cs[i]? = some c → ∃ d, ds[i]? = some d ∧ (d = c ∨
    c.step.isSome ∧ d.step.isSome ∧ d.state = c.state ∧ c.sequence < d.sequence)

structure Journal.Extends (j t : Journal) : Prop where
  operationId : t.operationId = j.operationId
  kind : t.kind = j.kind
  action : t.action = j.action
  generation : j.generation ≤ t.generation
  same : t.generation = j.generation → t = j
  records : RecordsKept j.checkpoints t.checkpoints
  evidence : j.evidence <+: t.evidence
  recovery : ∀ ref, j.recovery = some ref → t.recovery = some ref

theorem Journal.Extends.refl (j : Journal) : j.Extends j :=
  ⟨rfl,rfl,rfl,le_rfl,fun _ => rfl,fun _ c h => ⟨c,h,.inl rfl⟩,prefix_rfl,fun _ h => h⟩

theorem RecordsKept.trans {cs ds es : List Checkpoint} (h : RecordsKept cs ds)
    (g : RecordsKept ds es) : RecordsKept cs es := by
  intro i c hc
  obtain ⟨d,hd,h⟩ := h i c hc
  obtain ⟨e,he,g⟩ := g i d hd
  refine ⟨e,he,?_⟩
  rcases h with rfl|⟨h₁,h₂,h₃,h₄⟩
  · exact g
  · rcases g with rfl|⟨-,g₂,g₃,g₄⟩
    · exact .inr ⟨h₁,h₂,h₃,h₄⟩
    · exact .inr ⟨h₁,g₂,g₃.trans h₃,lt_trans h₄ g₄⟩

theorem Journal.Extends.trans {j t u : Journal} (h : j.Extends t) (g : t.Extends u) :
    j.Extends u where
  operationId := g.operationId.trans h.operationId
  kind := g.kind.trans h.kind
  action := g.action.trans h.action
  generation := le_trans h.generation g.generation
  same := by
    intro he
    have := h.generation
    have := g.generation
    have ht := h.same (by omega)
    exact (g.same (by omega)).trans ht
  records := h.records.trans g.records
  evidence := h.evidence.trans g.evidence
  recovery := fun ref hr => g.recovery ref (h.recovery ref hr)

/-- Every operation is still there, its counter and its journal no further back. -/
def Disk.Grows (d e : Disk) : Prop :=
  ∀ name n j, d.Holds name n j → ∃ m t, e.Holds name m t ∧ n ≤ m ∧ j.Extends t

theorem Disk.Grows.refl (d : Disk) : d.Grows d :=
  fun _ n j h => ⟨n,j,h,le_refl n,.refl j⟩

theorem Disk.Grows.trans {e f : Disk} (h : d.Grows e) (g : e.Grows f) : d.Grows f := by
  intro name n j hold
  obtain ⟨m,t,hold,hn,ht⟩ := h name n j hold
  obtain ⟨k,u,hold,hm,hu⟩ := g name m t hold
  exact ⟨k,u,hold,le_trans hn hm,ht.trans hu⟩

/-! One action after another. -/

def Store.after (s : Store) (a : Act) : Store := (device a s).2

structure Allowed (s : Store) (a : Act) : Prop where
  inv : s.Inv
  grows : s.disk.Grows (a.apply s.disk)
  issues : ∀ source op, a = .replace source op →
    op ∉ s.disk.names ∧ (∀ m, ¬s.disk.Live m) ∧ ∀ m, ¬s.disk.Pending m

structure Unseen (s : Store) (a : Act) : Prop where
  nodup : (a.apply s.disk).names.Nodup
  same : ∀ m, hidden m = false → (a.apply s.disk).dir m = s.disk.dir m
  unused : a.uses s.disk = []
  keeps : ∀ source op, a ≠ .replace source op

section
variable {s : Store}

theorem Unseen.allowed {a : Act} (h : Unseen s a) (inv : s.Inv) :
    Allowed s a ∧ (s.after a).Inv := by
  refine ⟨⟨inv,?_,fun source op he => absurd he (h.keeps source op)⟩,?_⟩
  · intro name n j hold
    exact ⟨n,j,⟨hold.1,by rw [h.same name hold.1,hold.2]⟩,le_refl n,.refl j⟩
  · have := inv.hidden h.nodup h.same
    simpa [Store.after,device,h.unused] using this

theorem unseen_look (inv : s.Inv) : Unseen s .look :=
  ⟨inv.nodup,fun _ _ => rfl,rfl,by simp⟩

theorem unseen_writeIndex (inv : s.Inv) (index : Json) : Unseen s (.writeIndex index) :=
  ⟨inv.nodup,fun _ _ => rfl,rfl,by simp⟩

variable {name : String}

theorem visible_ne {m : String} (hm : hidden m = false) (hn : hidden name = true) :
    m ≠ name := by
  rintro rfl
  simp [hm] at hn

theorem unseen_removeStaging (inv : s.Inv) (hn : hidden name = true) :
    Unseen s (.removeStaging name) := by
  refine ⟨?_,fun m hm => dir_removeStaging (visible_ne hm hn),rfl,by simp⟩
  exact inv.nodup.sublist (filter_sublist.map Prod.fst)

theorem unseen_mkdir (inv : s.Inv) (hn : hidden name = true)
    (fresh : name ∉ s.disk.names) : Unseen s (.mkdir name) := by
  refine ⟨?_,fun m hm => dir_mkdir (visible_ne hm hn),rfl,by simp⟩
  simp only [Act.apply,Disk.names,map_append,map_cons,map_nil]
  exact nodup_append.2 ⟨inv.nodup,by simp,by
    rintro a ha b hb rfl
    simp only [mem_singleton] at hb
    exact fresh (hb ▸ ha)⟩

theorem unseen_writeSequence (inv : s.Inv) (hn : hidden name = true) (n : Nat) :
    Unseen s (.writeSequence name n) := by
  refine ⟨by simpa [Act.apply] using inv.nodup,fun m hm => ?_,rfl,by simp⟩
  simp [Act.apply,visible_ne hm hn]

theorem unseen_writeJournal (inv : s.Inv) (hn : hidden name = true) (j : Journal) :
    Unseen s (.writeJournal name j) := by
  refine ⟨by simpa [Act.apply] using inv.nodup,fun m hm => ?_,by simp [Act.uses,hn],by simp⟩
  simp [Act.apply,visible_ne hm hn]

/-- A change to one operation's directory: counter `n` and journal `j` become `m` and `t`,
and `us` is used. -/
structure Update (s : Store) (op : String) (n : Nat) (j : Journal) (m : Nat) (t : Journal)
    (us : List Use) : Prop where
  holds : s.disk.Holds op n j
  counter : n ≤ m
  sound : Sound op m t
  growth : j.Extends t
  uses : ∀ u ∈ us, u.op = op ∧ u.sequence ≤ m
  ordered : us.Pairwise Use.Before
  after : ∀ u ∈ s.used, ∀ v ∈ us, u.Before v
  live : t.inProgress = true → (m : Int) < maxSafe → s.disk.Live op ∨ s.disk.Pending op
  pending : t.pending = true → j.pending = true

variable {op : String} {n m : Nat} {j t : Journal} {us : List Use} {d : Disk}

theorem Update.grows (u : Update s op n j m t us)
    (here : d.dir op = some ⟨some m,some t⟩) (there : ∀ k, k ≠ op → d.dir k = s.disk.dir k) :
    s.disk.Grows d := by
  intro name n' j' hold
  by_cases hn : name = op
  · subst hn
    obtain ⟨rfl,rfl⟩ := u.holds.unique hold
    exact ⟨m,t,⟨hold.1,here⟩,u.counter,u.growth⟩
  · exact ⟨n',j',⟨hold.1,by rw [there name hn,hold.2]⟩,le_refl n',.refl j'⟩

theorem Update.inv (u : Update s op n j m t us) (inv : s.Inv) (names : d.names = s.disk.names)
    (here : d.dir op = some ⟨some m,some t⟩) (there : ∀ k, k ≠ op → d.dir k = s.disk.dir k) :
    Store.Inv ⟨d,s.used ++ us⟩ := by
  have self : d.Holds op m t := ⟨u.holds.1,here⟩
  have other : ∀ {k n j}, k ≠ op → d.Holds k n j → s.disk.Holds k n j := fun hk hold =>
    ⟨hold.1,by rw [←there _ hk,hold.2]⟩
  have live : ∀ k, d.Live k → s.disk.Live k ∨ s.disk.Pending k := by
    rintro k ⟨n',j',hold,hp,hm⟩
    by_cases hk : k = op
    · subst hk
      obtain ⟨rfl,rfl⟩ := self.unique hold
      exact u.live hp hm
    · exact .inl ⟨n',j',other hk hold,hp,hm⟩
  have pending : ∀ k, d.Pending k → s.disk.Pending k := by
    rintro k ⟨n',j',hold,hp⟩
    by_cases hk : k = op
    · subst hk
      obtain ⟨rfl,rfl⟩ := self.unique hold
      exact ⟨n,j,u.holds,u.pending hp⟩
    · exact ⟨n',j',other hk hold,hp⟩
  refine ⟨by simpa only [names] using inv.nodup,?_,?_,?_,?_,?_⟩
  · intro name dir hn hd
    by_cases hk : name = op
    · subst hk
      simp only [here,Option.some.injEq] at hd
      exact ⟨m,t,hd.symm,u.sound⟩
    · exact inv.sound name dir hn (by rw [←there name hk]; exact hd)
  · intro v hv
    rcases mem_append.1 hv with hv|hv
    · obtain ⟨n',j',hold,hs⟩ := inv.spent v hv
      obtain ⟨m',t',hold,hm,-⟩ := u.grows here there _ _ _ hold
      exact ⟨m',t',hold,le_trans hs hm⟩
    · obtain ⟨ho,hs⟩ := u.uses v hv
      exact ⟨m,t,by simpa only [ho] using self,hs⟩
  · exact pairwise_append.2 ⟨inv.ordered,u.ordered,u.after⟩
  · intro a b ha hb
    rcases live a ha, live b hb with ⟨ha|ha,hb|hb⟩
    · exact inv.single a b ha hb
    · exact (inv.alone b a hb (.inl ha)).symm
    · exact inv.alone a b ha (.inl hb)
    · exact inv.alone a b ha (.inr hb)
  · intro a b ha hb
    refine inv.alone a b (pending a ha) ?_
    rcases hb with hb|hb
    · exact live b hb
    · exact .inr (pending b hb)

theorem Update.sequence (inv : s.Inv) (hold : s.disk.Holds op n j) (hn : n ≤ m)
    (hm : (m : Int) ≤ maxSafe) : Update s op n j m j [] where
  holds := hold
  counter := hn
  sound := { inv.holds_sound hold with durable := le_trans (inv.holds_sound hold).durable hn,
                                       safe := hm }
  growth := .refl j
  uses := by simp
  ordered := List.Pairwise.nil
  after := by simp
  live := fun hp hm => .inl ⟨n,j,hold,hp,by omega⟩
  pending := id

theorem writeSequence_allowed (inv : s.Inv) (hold : s.disk.Holds op n j) (hn : n ≤ m)
    (hm : (m : Int) ≤ maxSafe) : Allowed s (.writeSequence op m) ∧
      (s.after (.writeSequence op m)).Inv ∧
      (s.after (.writeSequence op m)).disk.Holds op m j := by
  have u := Update.sequence inv hold hn hm
  have here : ((Act.writeSequence op m).apply s.disk).dir op = some ⟨some m,some j⟩ := by
    simp [Act.apply,hold.2]
  have there : ∀ k, k ≠ op → ((Act.writeSequence op m).apply s.disk).dir k = s.disk.dir k := by
    intro k hk
    simp [Act.apply,hk]
  exact ⟨⟨inv,u.grows here there,by simp⟩,u.inv inv (by simp [Act.apply]) here there,hold.1,here⟩

theorem writeJournal_allowed (inv : s.Inv) (u : Update s op n j n t (recordOf op (some t))) :
    Allowed s (.writeJournal op t) ∧ (s.after (.writeJournal op t)).Inv ∧
      (s.after (.writeJournal op t)).disk.Holds op n t := by
  have here : ((Act.writeJournal op t).apply s.disk).dir op = some ⟨some n,some t⟩ := by
    simp [Act.apply,u.holds.2]
  have there : ∀ k, k ≠ op → ((Act.writeJournal op t).apply s.disk).dir k = s.disk.dir k := by
    intro k hk
    simp [Act.apply,hk]
  have := u.inv inv (by simp [Act.apply]) here there
  refine ⟨⟨inv,u.grows here there,by simp⟩,?_,u.holds.1,here⟩
  simpa [Store.after,device,Act.uses,u.holds.1] using this

theorem writeEvent_allowed (inv : s.Inv) (hold : s.disk.Holds op n j) {q : Nat} (hq : q ≤ n)
    (event : Json) (after : ∀ u ∈ s.used, u.Before (.event op q event)) :
    Allowed s (.writeEvent op q event) ∧ (s.after (.writeEvent op q event)).Inv := by
  have u : Update s op n j n j [.event op q event] :=
    { holds := hold, counter := le_refl n, sound := inv.holds_sound hold, growth := .refl j,
      uses := by simp [Use.op,Use.sequence,hq], ordered := by simp, after := by simpa using after,
      live := fun hp hm => .inl ⟨n,j,hold,hp,hm⟩, pending := id }
  exact ⟨⟨inv,.refl _,by simp⟩,u.inv inv rfl hold.2 fun _ _ => rfl⟩

theorem replaced_nodup {names : List String} {op : String} (source : String) (h : names.Nodup)
    (fresh : op ∉ names) : (names.map fun k => if k = source then op else k).Nodup := by
  induction names with
  | nil => simp
  | cons k names ih =>
    simp only [nodup_cons,mem_cons,not_or] at h fresh
    refine nodup_cons.2 ⟨?_,ih h.2 fresh.2⟩
    simp only [mem_map,not_exists,not_and]
    intro m hm he
    by_cases hk : k = source <;> by_cases hms : m = source <;> simp only [hk,hms,if_true,if_false] at he
    · exact h.1 (hk.trans hms.symm ▸ hm)
    · exact fresh.2 (he ▸ hm)
    · exact fresh.1 he
    · exact h.1 (he ▸ hm)

theorem replace_allowed (inv : s.Inv) {source : String} (hs : hidden source = true)
    (ho : hidden op = false) (fresh : op ∉ s.disk.names)
    (staged : s.disk.dir source = some ⟨some 1,some j⟩) (sound : Sound op 1 j)
    (idle : ∀ k, ¬s.disk.Live k) (clear : ∀ k, ¬s.disk.Pending k) :
    Allowed s (.replace source op) ∧ (s.after (.replace source op)).Inv ∧
      (s.after (.replace source op)).disk.Holds op 1 j := by
  have here : ((Act.replace source op).apply s.disk).dir op = some ⟨some 1,some j⟩ := by
    rw [dir_replace_target fresh,staged]
  have there : ∀ k, hidden k = false → k ≠ op →
      ((Act.replace source op).apply s.disk).dir k = s.disk.dir k := fun k hk hn =>
    dir_replace (visible_ne hk hs) hn
  have self : ((Act.replace source op).apply s.disk).Holds op 1 j := ⟨ho,here⟩
  have other : ∀ {k n j}, k ≠ op → ((Act.replace source op).apply s.disk).Holds k n j →
      s.disk.Holds k n j := fun hk hold => ⟨hold.1,by rw [←there _ hold.1 hk,hold.2]⟩
  have grows : s.disk.Grows ((Act.replace source op).apply s.disk) := by
    intro name n' j' hold
    have hn : name ≠ op := fun he => fresh (he ▸ hold.mem)
    exact ⟨n',j',⟨hold.1,by rw [there name hold.1 hn,hold.2]⟩,le_refl n',.refl j'⟩
  have live : ∀ k, ((Act.replace source op).apply s.disk).Live k → k = op := by
    rintro k ⟨n',j',hold,hp⟩
    by_contra hk
    exact idle k ⟨n',j',other hk hold,hp⟩
  have pending : ∀ k, ((Act.replace source op).apply s.disk).Pending k → k = op := by
    rintro k ⟨n',j',hold,hp⟩
    by_contra hk
    exact clear k ⟨n',j',other hk hold,hp⟩
  have unused : ∀ u ∈ s.used, u.op ≠ op := by
    intro u hu he
    obtain ⟨n',j',hold,-⟩ := inv.spent u hu
    exact fresh (he ▸ hold.mem)
  have uses : (Act.replace source op).uses s.disk = recordOf op (some j) := by
    simp [Act.uses,staged]
  have record : ∀ v ∈ recordOf op (some j), v.op = op ∧ v.sequence ≤ 1 := by
    intro v hv
    simp only [recordOf,Option.bind_some,Option.mem_toList,Option.map_eq_some_iff] at hv
    obtain ⟨c,hc,rfl⟩ := hv
    exact ⟨rfl,le_trans (le_durable (mem_of_getLast? hc)) sound.durable⟩
  refine ⟨⟨inv,grows,?_⟩,⟨?_,?_,?_,?_,?_,?_⟩,self⟩
  · rintro source' op' he
    obtain ⟨-,rfl⟩ : source = source' ∧ op = op' := by simpa using he
    exact ⟨fresh,idle,clear⟩
  · have := replaced_nodup source inv.nodup fresh
    simp only [Disk.names,map_map] at this
    simp only [Store.after,device,Act.apply,Disk.names,map_map]
    refine (congrArg List.Nodup (map_congr_left fun e _ => ?_)).mp this
    by_cases he : e.1 = source <;> simp [he]
  · intro name dir hn hd
    by_cases hk : name = op
    · subst hk
      exact ⟨1,j,Option.some.inj (hd.symm.trans here),sound⟩
    · exact inv.sound name dir hn (there name hn hk ▸ hd)
  · intro u hu
    rcases mem_append.1 hu with hu|hu
    · obtain ⟨n',j',hold,hs⟩ := inv.spent u hu
      obtain ⟨m',t',hold,hm,-⟩ := grows _ _ _ hold
      exact ⟨m',t',hold,le_trans hs hm⟩
    · obtain ⟨ho,hs⟩ := record u (uses ▸ hu)
      exact ⟨1,j,ho ▸ self,hs⟩
  · refine pairwise_append.2 ⟨inv.ordered,?_,fun u hu v hv he => ?_⟩
    · rw [uses,recordOf]
      cases (some j).bind Journal.last <;> simp
    · exact absurd (he.trans (record v (uses ▸ hv)).1) (unused u hu)
  · exact fun a b ha hb => (live a ha).trans (live b hb).symm
  · rintro a b ha (hb|hb)
    · exact (pending a ha).trans (live b hb).symm
    · exact (pending a ha).trans (pending b hb).symm

end

end CircuitBreaker.Lifecycle
