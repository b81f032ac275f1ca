import CircuitBreaker.LifecycleInvariant

/-! What one request does to the operation directories, at every point it can be
killed at. -/

namespace CircuitBreaker.Lifecycle
open DiskProgram TextPattern List

/-! Reading back what was written. -/

theorem visible_of_valid {name : String} (h : validOperationId name = true) :
    hidden name = false := by
  have dot : ∀ k ∈ operationIdPattern.classes, k.has '.' = false := by decide
  have drawn := (whole_reads (valid_search rfl h)).1
  cases hl : name.toList with
  | nil => simp [hidden,hl]
  | cons c cs =>
    obtain ⟨k,hk,hc⟩ := drawn c (by simp [hl])
    have : c ≠ '.' := by
      rintro rfl
      simp [dot k hk] at hc
    simpa [hidden,hl] using this

section
variable {name : String} {n : Nat} {j : Journal} {d : Disk}

theorem Sound.validId (h : Sound name n j) : validOperationId name = true := by
  have := (validate_sound h.valid).1.operationId
  rwa [h.named] at this

theorem Sound.last (h : Sound name n j) : ∃ c, j.last = some c := by
  have := (validate_sound h.valid).1.nonempty
  cases hl : j.last with
  | some c => exact ⟨c,rfl⟩
  | none =>
    have : j.checkpoints = [] := getLast?_eq_none_iff.1 hl
    simp [this] at *

theorem Sound.ruled (h : Sound name n j) {c : Checkpoint} (last : j.last = some c) :
    j.Ruled c (attemptsAfter none 0 j.checkpoints) :=
  journalRules_ruled (validate_sound h.valid).2.2 last

theorem Sound.counter_pos (h : Sound name n j) : 1 ≤ n := by
  have := (validate_sound h.valid).1.generation
  have := h.generation
  have := h.durable
  omega

theorem Sound.readable (h : Sound name n j) : j.refusedAsFile = none := by
  obtain ⟨hc,hs,hr⟩ := validate_sound h.valid
  obtain ⟨c,last⟩ := h.last
  obtain ⟨text,ht⟩ := plain_canonical "" (plain_journal.2 ⟨hs.generation,hs.sequences⟩)
  have size := (canonical_plain ht).2
  have bound := journal_size hc hs.generation hs.sequences (h.ruled last).walked.length_le
  have fits : utf8Size text+1 ≤ DocKind.journal.maxBytes := by
    show utf8Size text+1 ≤ 65536
    omega
  have file : canonicalize j.toJson = .ok text := ht
  simp only [Journal.refusedAsFile,file,orElse_eq_none,sizeCheck_eq_none]
  exact ⟨fits,h.valid⟩

theorem readRecord_holds (hold : d.Holds name n j) (h : Sound name n j) :
    d.readRecord name = { name := name, journal := some j } := by
  simp [Disk.readRecord,h.validId,hold.2,h.readable,h.named]

theorem readCounter_holds (hold : d.Holds name n j) (h : Sound name n j) :
    d.readCounter name = n := by
  have pos := h.counter_pos
  have safe := h.safe
  have range : 1 ≤ n ∧ n < 10^16 := by
    simp only [maxSafe] at safe
    omega
  simp only [Disk.readCounter,hold.2,Option.bind_some]
  rw [if_pos range]

end

variable {op : String} {j : Journal}

variable {s : Store} {n : Nat} {t : Journal} {now : Moment}

theorem operation_holds (inv : s.Inv)
    (h : s.disk.operation op = .ok j) : ∃ n, s.disk.Holds op n j := by
  unfold Disk.operation at h
  by_cases hm : s.disk.names.contains op = true
  · simp only [hm,Bool.not_true,Bool.false_eq_true,if_false] at h
    cases hr : (s.disk.readRecord op).journal with
    | none => simp [hr] at h
    | some j' =>
      simp only [hr,Except.ok.injEq] at h
      subst h
      have hv : validOperationId op = true := by
        by_contra hv
        simp [Disk.readRecord,Bool.eq_false_iff.2 hv] at hr
      have vis := visible_of_valid hv
      cases hd : s.disk.dir op with
      | none => simp [dir_eq_none.1 hd] at hm
      | some dir =>
        obtain ⟨n,t,rfl,sound⟩ := inv.sound op dir vis hd
        have hold : s.disk.Holds op n t := ⟨vis,hd⟩
        rw [readRecord_holds hold sound] at hr
        exact ⟨n,(Option.some.inj hr) ▸ hold⟩
  · rw [Bool.not_eq_true] at hm
    simp only [hm,Bool.not_false,if_true,reduceCtorEq] at h

/-! The next journal, of a checkpoint or of an abandonment. -/

/-- Journal `t` ends in the one record `entry` after `j`. -/
structure Next (op : String) (n : Nat) (j t : Journal) (entry : Checkpoint) : Prop where
  sound : Sound op (n+1) t
  last : t.last = some entry
  sequence : entry.sequence = n+1
  growth : j.Extends t
  live : t.inProgress = true → j.inProgress = true ∨ j.pending = true
  pending : t.pending = true → j.pending = true

theorem nextSequence_eq (h : Sound op n j) :
    j.nextSequence n = n+1 := by
  have := h.durable
  simp only [Journal.nextSequence]
  omega

variable {c : Checkpoint}

theorem place_kept {entry : Checkpoint} (last : j.last = some c)
    (above : c.sequence < entry.sequence) : RecordsKept j.checkpoints (j.place entry) := by
  have split : j.checkpoints = j.checkpoints.dropLast++[c] := by
    obtain ⟨ys,hy⟩ := getLast?_eq_some_iff.1 last
    simp [hy]
  intro i d hd
  unfold Journal.place
  split
  case isTrue stepped =>
    simp only [last,Option.any_some,Bool.and_eq_true,beq_iff_eq] at stepped
    rw [split] at hd
    by_cases hi : i < j.checkpoints.dropLast.length
    · rw [List.getElem?_append_left hi] at hd ⊢
      exact ⟨d,hd,.inl rfl⟩
    · rw [List.getElem?_append_right (by omega)] at hd ⊢
      cases hk : i-j.checkpoints.dropLast.length with
      | zero =>
        simp only [hk,List.getElem?_cons_zero,Option.some.injEq] at hd
        subst hd
        exact ⟨entry,rfl,.inr ⟨stepped.1.2,stepped.1.1,stepped.2.symm,above⟩⟩
      | succ k =>
        rw [hk] at hd
        simp at hd
  case isFalse =>
    obtain ⟨hi,-⟩ := List.getElem?_eq_some_iff.1 hd
    exact ⟨d,by rw [List.getElem?_append_left hi,hd],.inl rfl⟩

theorem progress_from {d : Checkpoint} (valid : j.validate = none)
    (last : j.last = some c) (step : Stepped j t c d) (h : t.inProgress = true) :
    j.inProgress = true ∨ j.pending = true := by
  have lawful := (journalRules_ruled (validate_sound valid).2.2 last).walked.lawful
  simp only [Journal.inProgress,Journal.finished,step.last,Option.any_some,Bool.and_eq_true,
    bne_iff_ne,ne_eq,Bool.not_eq_true',Option.isSome_eq_false_iff,Option.isNone_iff_eq_none] at h
  obtain ⟨hd,hr,hi⟩ := h
  simp only [Journal.inProgress,Journal.pending,Journal.finished,last,Option.any_some,
    Bool.and_eq_true,bne_iff_ne,ne_eq,Bool.not_eq_true',Option.isSome_eq_false_iff,
    Option.isNone_iff_eq_none,beq_iff_eq]
  rcases step.placed with ⟨hc,-,hs⟩|⟨attempts,follows⟩
  · have progress := lawful.step hc
    exact .inl ⟨lawful.progress_open progress,hs ▸ hr,hs ▸ hi⟩
  · by_cases hs : c.state = d.state
    · exact .inl ⟨follows.opened,hs ▸ hr,hs ▸ hi⟩
    · have moved := (follows.moves hs).1
      cases hk : j.kind with
      | transaction => exact .inr ⟨rfl,follows.opened⟩
      | legacy =>
        rw [hk] at moved
        refine .inl ⟨follows.opened,?_,?_⟩
        · intro hc
          simp [hc,transitions] at moved
        · intro hc
          simp [hc,transitions] at moved

theorem pending_from {d : Checkpoint} (valid : j.validate = none)
    (last : j.last = some c) (step : Stepped j t c d) (h : t.pending = true) :
    j.pending = true := by
  have lawful := (journalRules_ruled (validate_sound valid).2.2 last).walked.lawful
  have opened : c.outcome = none := by
    rcases step.placed with ⟨hc,-,-⟩|⟨attempts,follows⟩
    · exact lawful.progress_open (lawful.step hc)
    · exact follows.opened
  simp only [Journal.pending,Bool.and_eq_true,beq_iff_eq] at h ⊢
  exact ⟨step.kind ▸ h.1,by simp [Journal.finished,last,opened]⟩

variable {stamp : String}

theorem checkpoint_next {entry : Checkpoint} {r : CheckpointRequest} (h : Sound op n j) (hs : stamp = now.stamp)
    (hn : nextJournal n stamp j r = .ok (t,entry)) : Next op n j t entry := by
  subst hs
  obtain ⟨c,last⟩ := h.last
  obtain ⟨d,step⟩ := checkpointStep_stepped (e := ⟨n,now,r⟩) last ⟨entry,hn⟩
  obtain ⟨error,recovery,item,-,he,hr,hv,ht⟩ := nextJournal_cases hn
  have sequence : entry.sequence = n+1 := by
    rw [he]
    exact nextSequence_eq h
  have tlast : t.last = some entry := by
    rw [ht]
    unfold Journal.last Journal.place
    split <;> simp
  have durable : t.durable = n+1 :=
    (durable_eq (journalRules_ruled (validate_sound hv).2.2 tlast)).trans sequence
  have generation : t.generation = j.generation+1 := by rw [ht]
  have safe := (validate_sound hv).2.1.sequences entry (mem_of_getLast? tlast)
  have below := h.generation
  have counter := h.durable
  have above : c.sequence < entry.sequence := by
    have := le_durable (mem_of_getLast? last)
    omega
  refine ⟨⟨hv,?_,by omega,by omega,by rw [sequence] at safe; exact safe⟩,tlast,sequence,?_,
    progress_from h.valid last step,pending_from h.valid last step⟩
  · rw [ht]
    exact h.named
  · refine ⟨by rw [ht],by rw [ht],by rw [ht],by omega,by omega,?_,?_,?_⟩
    · rw [ht]
      exact place_kept last above
    · rw [ht]
      exact prefix_append ..
    · rw [ht]
      exact hr

theorem Walked.legacy_mutating {action : Action} {cs : List Checkpoint}
    {attempts : Nat} (h : Walked .legacy action cs c attempts)
    (first : ∃ d, cs.head? = some d ∧ d.state = .applying) : c.state ∉ preMutation := by
  induction h with
  | first rules =>
    obtain ⟨d,hd,hs⟩ := first
    simp only [head?_cons,Option.some.injEq] at hd
    subst hd
    simp [hs,preMutation]
  | @next cs prev c attempts before rules follows ih =>
    have first' : ∃ d, cs.head? = some d ∧ d.state = .applying := by
      obtain ⟨d,hd,hs⟩ := first
      cases cs with
      | nil => simpa using before.walk_eq_none.2.1
      | cons e es => exact ⟨d,by simpa using hd,hs⟩
    by_cases same : prev.state = c.state
    · exact same ▸ ih first'
    · have moved := (follows.moves same).1
      revert moved
      cases prev.state <;> cases c.state <;> decide

theorem abandonment_rules
    (hi : c.state ≠ .interrupted) : checkpointRules (j.abandonment c n stamp) "" = none := by
  cases hs : c.state <;>
    simp [checkpointRules,causeRules,allowedCauses,outcomeRules,closingRule,errorRules,
      Journal.abandonment,Checkpoint.needsError,Checkpoint.errorAs,State.name,
      Checkpoint.early,preMutation,failIf,hs] at hi ⊢

section
variable {op : String} {n : Nat} {j : Journal} {c : Checkpoint}

theorem inProgress_last (last : j.last = some c) (h : j.inProgress = true) :
    c.outcome = none ∧ c.state ≠ .recoveryRequired ∧ c.state ≠ .interrupted := by
  simpa [Journal.inProgress,Journal.finished,last] using h

theorem abandonment_next (h : Sound op n j) (last : j.last = some c)
    (progress : j.inProgress = true) (room : (n : Int) < maxSafe) (now : Moment) :
    Next op n j (j.append (j.abandonment c n now.stamp) now.stamp)
      (j.abandonment c n now.stamp) := by
  obtain ⟨opened,hr,hi⟩ := inProgress_last last progress
  have ruled := h.ruled last
  have lawful := ruled.walked.lawful
  have generation := h.generation
  have durable := h.durable
  have sequence : (j.abandonment c n now.stamp).sequence = n+1 := nextSequence_eq h
  have below := le_durable (mem_of_getLast? last)
  have legal : State.interrupted ∈ transitions j.kind c.state := by
    have hc : c.state ≠ .committed := fun hc => by simp [lawful.committed.1 hc] at opened
    have hd : c.state ≠ .recovered := fun hd => by simp [lawful.recovered.1 hd] at opened
    cases hk : j.kind with
    | transaction =>
      revert hc hd hr hi
      cases c.state <;> decide
    | legacy =>
      have mutating : c.state ∉ preMutation := by
        obtain ⟨d,hd,hs⟩ := ruled.initial
        have walked := ruled.walked
        rw [hk] at walked hs
        exact walked.legacy_mutating ⟨d,hd,hs⟩
      revert hc hd hr hi mutating
      cases c.state <;> decide
  have follows : Follows j.kind j.action c (j.abandonment c n now.stamp)
      (nextAttempts c (j.abandonment c n now.stamp) (attemptsAfter none 0 j.checkpoints)) := by
    refine ⟨opened,by omega,fun _ => rfl,?_,?_,fun same => absurd same hi,fun _ => ⟨legal,?_⟩⟩
    · intro hm
      simp [Journal.abandonment] at hm
    · intro hs
      simp [startsAttempt,Journal.abandonment] at hs
    · intro _ ha
      simp [Journal.abandonment] at ha
  have conforms : (j.abandonment c n now.stamp).Conforms :=
    ⟨by omega,stamp_valid now,by simp [Journal.abandonment],by simp [Journal.abandonment]⟩
  have valid := append_validate h.valid last (abandonment_rules hi) follows conforms (by omega)
    (by omega) (by simp [Journal.abandonment]) (stamp_valid now)
  have tlast : (j.append (j.abandonment c n now.stamp) now.stamp).last =
      some (j.abandonment c n now.stamp) := by simp [Journal.last,Journal.append]
  have tdurable := (durable_eq (journalRules_ruled (validate_sound valid).2.2 tlast)).trans sequence
  refine ⟨⟨valid,h.named,?_,by omega,by omega⟩,tlast,sequence,?_,?_,?_⟩
  · simp only [Journal.append] at tdurable ⊢
    omega
  · refine ⟨rfl,rfl,rfl,by simp [Journal.append],by simp [Journal.append],?_,prefix_rfl,
      fun _ hr => hr⟩
    intro i d hd
    obtain ⟨hi,-⟩ := List.getElem?_eq_some_iff.1 hd
    exact ⟨d,by rw [Journal.append,List.getElem?_append_left hi,hd],.inl rfl⟩
  · intro _
    exact .inl progress
  · intro hp
    simp only [Journal.pending,Bool.and_eq_true,Journal.append] at hp ⊢
    exact ⟨hp.1,by simp [Journal.finished,last,opened]⟩

theorem abandonment_refused (h : Sound op n j) (full : ¬(n : Int) < maxSafe) (stamp : String) :
    (j.append (j.abandonment c n stamp) stamp).validate ≠ none := by
  intro valid
  have safe := (validate_sound valid).2.1.sequences (j.abandonment c n stamp)
    (by simp [Journal.append])
  have sequence : (j.abandonment c n stamp).sequence = n+1 := nextSequence_eq h
  omega

end

/-! Programs, one action after another. -/

section
variable {α : Type} {s : Store} {Q : α → Store → Prop}

variable {k : Disk → Step α}

theorem wp_act {a : Act} (h : Allowed s a)
    (next : (k (s.after a).disk).wp device Allowed Q (s.after a)) :
    (Prog.act a k).wp device Allowed Q s := ⟨h,next⟩

theorem wp_look (inv : s.Inv) (next : (k s.disk).wp device Allowed Q s) :
    (Prog.act .look k).wp device Allowed Q s := by
  refine wp_act ((unseen_look inv).allowed inv).1 ?_
  have same : s.after .look = s := by simp [Store.after,device,Act.apply,Act.uses]
  rwa [same]

variable {op : String} {n : Nat} {j t : Journal} {entry : Checkpoint}

theorem used_below (inv : s.Inv) (hold : s.disk.Holds op n j) {u : Use} (hu : u ∈ s.used)
    (ho : u.op = op) : u.sequence ≤ n := by
  obtain ⟨n',j',hold',hs⟩ := inv.spent u hu
  obtain ⟨rfl,-⟩ := hold.unique (ho ▸ hold')
  exact hs

structure Stored (s : Store) (op : String) (n : Nat) (t : Journal) (s' : Store) : Prop where
  inv : s'.Inv
  holds : s'.disk.Holds op (n+1) t
  others : ∀ m, m ≠ op → s'.disk.dir m = s.disk.dir m
  names : s'.disk.names = s.disk.names
  used : s'.used = s.used++[.record op (n+1)]

theorem wp_store (inv : s.Inv) (hold : s.disk.Holds op n j) (next : Next op n j t entry)
    (cont : ∀ s', Stored s op n t s' → (k s'.disk).wp device Allowed Q s') :
    (Prog.act (.writeSequence op entry.sequence) fun _ => .act (.writeJournal op t) k).wp
      device Allowed Q s := by
  rw [next.sequence]
  obtain ⟨ha,inv₁,hold₁⟩ := writeSequence_allowed inv hold (Nat.le_succ n) next.sound.safe
  have used₁ : (s.after (.writeSequence op (n+1))).used = s.used := by
    simp [Store.after,device,Act.uses]
  have uses : recordOf op (some t) = [.record op (n+1)] := by
    simp [recordOf,next.last,next.sequence]
  have live : t.inProgress = true → ((n+1 : Nat) : Int) < maxSafe →
      (s.after (.writeSequence op (n+1))).disk.Live op ∨
        (s.after (.writeSequence op (n+1))).disk.Pending op := by
    intro hp hm
    rcases next.live hp with h|h
    · exact .inl ⟨n+1,j,hold₁,h,hm⟩
    · exact .inr ⟨n+1,j,hold₁,h⟩
  have u : Update (s.after (.writeSequence op (n+1))) op (n+1) j (n+1) t (recordOf op (some t)) :=
    { holds := hold₁, counter := le_rfl, sound := next.sound, growth := next.growth,
      uses := by simp [uses,Use.op,Use.sequence], ordered := by simp [uses], live := live,
      pending := next.pending,
      after := by
        simp only [uses,mem_singleton,used₁]
        rintro u hu v rfl ho
        exact .inl (Nat.lt_succ_of_le (used_below inv hold hu ho)) }
  obtain ⟨hb,inv₂,hold₂⟩ := writeJournal_allowed inv₁ u
  refine wp_act ha (wp_act hb (cont _ ⟨inv₂,hold₂,?_,?_,?_⟩))
  · intro m hm
    simp [Store.after,device,Act.apply,hm]
  · simp [Store.after,device,Act.apply]
  · simp [Store.after,device,Act.uses,hold.1,uses]

end

/-! Reconciliation. -/

/-- What reconciliation makes of journal `j` under counter `n`: it closes one that is in
progress and has a number left, and it finishes only what had changed nothing. -/
def Settled (mine : Prop) (n : Nat) (j : Journal) (n' : Nat) (t : Journal) : Prop :=
  n' = n ∧ t = j ∧ (mine ∨ j.inProgress = false ∨ ¬(n : Int) < maxSafe) ∨
    ¬mine ∧ j.inProgress = true ∧ (n : Int) < maxSafe ∧ t.inProgress = false ∧
      t.kind = j.kind ∧ (t.finished = true → ∃ c, j.last = some c ∧ c.state ∈ preMutation)

theorem append_last (j : Journal) (d : Checkpoint) (stamp : String) :
    (j.append d stamp).last = some d := by
  simp [Journal.last,Journal.append]

theorem abandonment_settled
    {mine : Prop} (last : j.last = some c) (progress : j.inProgress = true)
    (room : (n : Int) < maxSafe) (hm : ¬mine) :
    Settled mine n j (n+1) (j.append (j.abandonment c n stamp) stamp) := by
  refine .inr ⟨hm,progress,room,?_,rfl,?_⟩
  · simp [Journal.inProgress,append_last,Journal.abandonment]
  · intro hf
    refine ⟨c,last,?_⟩
    simp only [Journal.finished,append_last,Option.any_some,Journal.abandonment] at hf
    by_contra hc
    simp [hc] at hf

def Record.Current (r : Record) (s : Store) : Prop :=
  ∃ n j, s.disk.Holds r.name n j ∧ r.journal = some j

theorem abandon_wp {record : Record} {mine : Prop} {Q : Record × Option String → Store → Prop} (inv : s.Inv)
    (hold : s.disk.Holds record.name n j) (hr : record.journal = some j)
    (last : j.last = some c) (progress : j.inProgress = true) (hm : ¬mine)
    (cont : ∀ out s', s'.Inv → (∀ m, m ≠ record.name → s'.disk.dir m = s.disk.dir m) →
      s'.disk.names = s.disk.names → out.1.name = record.name →
      (∃ n' t, s'.disk.Holds record.name n' t ∧ out.1.journal = some t ∧ Settled mine n j n' t) →
      Q out s') : (abandon now record j c).wp device Allowed Q s := by
  have sound := inv.holds_sound hold
  have counter := readCounter_holds hold sound
  by_cases room : (n : Int) < maxSafe
  · have next := abandonment_next sound last progress room now
    simp only [abandon,Prog.bind_eq,perform_bind]
    refine wp_look inv ?_
    simp only [counter,next.sound.valid]
    refine wp_store inv hold next fun s' h => ?_
    exact cont _ s' h.inv h.others h.names rfl
      ⟨n+1,_,h.holds,rfl,abandonment_settled last progress room hm⟩
  · obtain ⟨e,refused⟩ := Option.ne_none_iff_exists'.1
      (abandonment_refused (c := c) sound room now.stamp)
    simp only [abandon,Prog.bind_eq,perform_bind]
    refine wp_look inv ?_
    simp only [counter,refused]
    exact cont _ s inv (fun _ _ => rfl) rfl rfl ⟨n,j,hold,hr,.inl ⟨rfl,rfl,.inr (.inr room)⟩⟩

/-- What `reconcile` leaves behind, and what it hands on: the records as they then are. -/
structure Reconciled (bound : String) (read : List String) (s : Store) (out : List Record)
    (s' : Store) : Prop where
  inv : s'.Inv
  others : ∀ m, m ∉ read → s'.disk.dir m = s.disk.dir m
  names : s'.disk.names = s.disk.names
  listed : out.map Record.name = read
  settled : ∀ r ∈ out, ∃ n j n' t, s.disk.Holds r.name n j ∧ s'.disk.Holds r.name n' t ∧
    r.journal = some t ∧ Settled (r.name = bound) n j n' t

theorem leftover_cases {r : Record} (bound : String) (hr : r.journal = some j) :
    (∃ c, j.last = some c ∧ j.inProgress = true ∧ r.name ≠ bound ∧ r.leftover bound = some (j,c)) ∨
    (r.name = bound ∨ j.inProgress = false) ∧ r.leftover bound = none := by
  cases hl : j.last with
  | none =>
    have : j.inProgress = false := by simp [Journal.inProgress,hl]
    exact .inr ⟨.inr this,by simp [Record.leftover,hr,hl]⟩
  | some c =>
    by_cases hb : r.name = bound
    · exact .inr ⟨.inl hb,by simp [Record.leftover,hr,hb]⟩
    · cases hp : j.inProgress with
      | false => exact .inr ⟨.inr rfl,by simp [Record.leftover,hr,hl,hp]⟩
      | true => exact .inl ⟨c,rfl,rfl,hb,by simp [Record.leftover,hr,hl,hp,hb]⟩

theorem reconcile_wp {clock : Nat → Moment} {bound : String} {records : List Record} :
    ∀ {i : Nat} {s : Store} {Q : List Record × List String → Store → Prop}, s.Inv →
      (∀ r ∈ records, r.Current s) → (records.map Record.name).Nodup →
      (∀ out s', Reconciled bound (records.map Record.name) s out.1 s' → Q out s') →
      (reconcile clock bound i records).wp device Allowed Q s := by
  induction records with
  | nil =>
    intro i s Q inv _ _ cont
    exact cont _ s ⟨inv,fun _ _ => rfl,rfl,rfl,by simp⟩
  | cons r rest ih =>
    intro i s Q inv current nodup cont
    obtain ⟨n,j,hold,hr⟩ := current r (by simp)
    simp only [map_cons,nodup_cons] at nodup
    -- The rest, from the store the first record is left in.
    have tail : ∀ (out₁ : Record × Option String) (s₁ : Store), s₁.Inv → (∀ m, m ≠ r.name → s₁.disk.dir m = s.disk.dir m) →
        s₁.disk.names = s.disk.names → out₁.1.name = r.name →
        (∃ n' t, s₁.disk.Holds r.name n' t ∧ out₁.1.journal = some t ∧
          Settled (r.name = bound) n j n' t) →
        (((reconcile clock bound (i+1) rest).bind fun x =>
          Prog.done (out₁.1::x.1,out₁.2.toList++x.2)) : Step (List Record × List String)).wp
            device Allowed Q s₁ := by
      intro out₁ s₁ inv₁ others₁ names₁ name₁ ⟨n',t,hold₁,hj,settled⟩
      have apart : ∀ q ∈ rest, q.name ≠ r.name := fun q hq he =>
        nodup.1 (he ▸ mem_map_of_mem hq)
      have current₁ : ∀ q ∈ rest, q.Current s₁ := by
        intro q hq
        obtain ⟨m,k,hold,hk⟩ := current q (by simp [hq])
        exact ⟨m,k,⟨hold.1,by rw [others₁ _ (apart q hq),hold.2]⟩,hk⟩
      rw [Prog.wp_bind]
      refine ih inv₁ current₁ nodup.2 fun out₂ s₂ done => ?_
      have kept : ∀ m, m ∉ rest.map Record.name → s₂.disk.dir m = s₁.disk.dir m := done.others
      refine cont _ s₂ ⟨done.inv,?_,done.names.trans names₁,by simp [name₁,done.listed],?_⟩
      · intro m hm
        simp only [map_cons,mem_cons,not_or] at hm
        rw [kept m hm.2,others₁ m hm.1]
      · intro q hq
        rcases mem_cons.1 hq with rfl|hq
        · rw [name₁]
          exact ⟨n,j,n',t,hold,⟨hold₁.1,by rw [kept _ nodup.1,hold₁.2]⟩,hj,settled⟩
        · obtain ⟨m,k,m',k',before,after,hk,hs⟩ := done.settled q hq
          have far : q.name ≠ r.name := fun he =>
            nodup.1 (he ▸ done.listed ▸ mem_map_of_mem hq)
          exact ⟨m,k,m',k',⟨before.1,by rw [←others₁ _ far,before.2]⟩,after,hk,hs⟩
    simp only [reconcile,Prog.bind_eq]
    rcases leftover_cases bound hr with ⟨c,last,progress,hb,hl⟩|⟨idle,hl⟩
    · simp only [hl]
      rw [Prog.wp_bind]
      exact abandon_wp inv hold hr last progress hb fun out₁ s₁ => tail out₁ s₁
    · simp only [hl,Prog.pure_eq,Prog.done_bind]
      refine tail (r,none) s inv (fun _ _ => rfl) rfl rfl ⟨n,j,hold,hr,.inl ⟨rfl,rfl,?_⟩⟩
      exact idle.imp_right .inl

/-! The records a request reads. -/

theorem readRecords_names (d : Disk) : d.readRecords.map Record.name =
      (d.names.filter fun name => !hidden name).insertionSort (· ≤ ·) := by
  have same : ∀ name, (d.readRecord name).name = name := by
    intro name
    unfold Disk.readRecord
    split
    · rfl
    · split
      · rfl
      · split
        · rfl
        · split
          · rfl
          · split <;> rfl
  simp [Disk.readRecords,Function.comp_def,same]

theorem mem_readRecords {d : Disk} {name : String} :
    name ∈ d.readRecords.map Record.name ↔ name ∈ d.names ∧ hidden name = false := by
  rw [readRecords_names,mem_insertionSort]
  simp

theorem readRecords_nodup {d : Disk} (h : d.names.Nodup) :
    (d.readRecords.map Record.name).Nodup := by
  rw [readRecords_names]
  exact (perm_insertionSort ..).nodup_iff.2 (h.filter _)

theorem readRecords_current (inv : s.Inv) : ∀ r ∈ s.disk.readRecords, r.Current s := by
  intro r hr
  simp only [Disk.readRecords,mem_map,mem_insertionSort,mem_filter] at hr
  obtain ⟨name,⟨hn,hv⟩,rfl⟩ := hr
  have vis : hidden name = false := by simpa using hv
  cases hd : s.disk.dir name with
  | none => exact absurd hn (dir_eq_none.1 hd)
  | some dir =>
    obtain ⟨n,j,rfl,sound⟩ := inv.sound name dir vis hd
    have hold : s.disk.Holds name n j := ⟨vis,hd⟩
    rw [readRecord_holds hold sound]
    exact ⟨n,j,hold,rfl⟩

/-! A new operation. -/

theorem digitsNumber_snoc (ds : List Char) (c : Char) :
    digitsNumber (ds++[c]) = 10*digitsNumber ds+(c.toNat-48) := by
  simp [digitsNumber]

theorem digitsNumber_padded : ∀ (width n : Nat), digitsNumber (padded width n) = n%10^width
  | 0, n => by simp [padded,digitsNumber,Nat.mod_one]
  | width+1, n => by
    rw [padded,digitsNumber_snoc,digit_value,digitsNumber_padded width (n/10),Nat.pow_succ',
      Nat.mod_mul]
    omega

theorem isDigit_of_has {c : Char} (h : CharClass.has ⟨digits,false⟩ c = true) : c.isDigit = true := by
  simp only [CharClass.has,digits,range,any_cons,any_nil,Bool.or_false,Bool.bne_false,
    Bool.and_eq_true,decide_eq_true_eq] at h
  simp only [Char.isDigit,Bool.and_eq_true,decide_eq_true_eq]
  exact ⟨UInt32.le_iff_toNat_le.2 h.1,UInt32.le_iff_toNat_le.2 h.2⟩

theorem idName_letters (day : List Char) (number : Nat) : (idName day number).toList =
    "op-".toList++day ++ '-'::padded (max 3 (toString number).length) number :=
  String.toList_ofList

theorem idNumber_idName {day : List Char} {number : Nat} (h : number ≤ 999999999) :
    idNumber day (idName day number) = some number := by
  have narrow : (toString number).length ≤ 9 :=
    (Nat.length_repr_le_iff (n := number) (k := 9) (by omega)).2 (by omega)
  have width : number < 10^(max 3 (toString number).length) := by
    have := (Nat.length_repr_le_iff (n := number) (k := (toString number).length)
      (by rw [show toString number = number.repr from rfl]; exact Nat.length_repr_pos)).1 le_rfl
    exact lt_of_lt_of_le this (Nat.pow_le_pow_right (by omega) (le_max_right ..))
  have split : (idName day number).toList =
      ("op-".toList++day++['-'])++padded (max 3 (toString number).length) number :=
    (idName_letters day number).trans (append_assoc _ ['-'] _).symm
  have digits : (padded (max 3 (toString number).length) number).all Char.isDigit = true :=
    all_eq_true.2 fun c hc => isDigit_of_has (padded_digits c hc)
  have range : 3 ≤ (padded (max 3 (toString number).length) number).length ∧
      (padded (max 3 (toString number).length) number).length ≤ 9 := by
    rw [padded_length]
    omega
  unfold idNumber
  simp only [split,drop_left]
  rw [if_pos ⟨ isPrefixOf_iff_prefix.2 (prefix_append ..),range.1,range.2,digits⟩,
    digitsNumber_padded,Nat.mod_eq_of_lt width]

theorem idName_fresh {names : List String} {day : List Char}
    (h : todayIds names day+1 ≤ 999999999) : idName day (todayIds names day+1) ∉ names := by
  intro hm
  have listed : todayIds names day+1 ∈ names.filterMap (idNumber day) :=
    mem_filterMap.2 ⟨_,hm,idNumber_idName h⟩
  have : todayIds names day+1 ≤ todayIds names day := le_foldl_max.2 _ listed
  omega

theorem idName_visible (day : List Char) (number : Nat) : hidden (idName day number) = false := by
  show ((idName day number).toList.head? == some '.') = false
  rw [idName_letters]
  rfl

theorem validOrUsage_ok {refusal : Option ContractError} {u : Unit}
    (h : validOrUsage refusal = .ok u) : refusal = none := by
  cases refusal with
  | none => rfl
  | some e => simp [validOrUsage] at h

theorem firstJournal_sound {r : BeginRequest}
    (h : firstJournal op stamp r = .ok j) : Sound op 1 j ∧ j.last =
      some { sequence := 1, state := initialState r.kind, time := stamp } := by
  obtain ⟨source,-,h⟩ := except_bind h
  obtain ⟨target,-,h⟩ := except_bind h
  obtain ⟨recovery,-,h⟩ := except_bind h
  obtain ⟨item,-,h⟩ := except_bind h
  obtain ⟨_,hv,h⟩ := except_bind h
  simp only [pure,Except.pure,Except.ok.injEq] at h
  have valid := validOrUsage_ok hv
  rw [h] at valid
  subst h
  exact ⟨⟨valid,rfl,by simp [Journal.durable],by simp [Journal.durable],by decide⟩,rfl⟩

theorem prepare_sound {names : List String} {r : BeginRequest} {event : Json} (h : prepare now names r = .ok (op,j,event)) :
    op ∉ names ∧ hidden op = false ∧ Sound op 1 j ∧ recordOf op (some j) = [.record op 1] := by
  unfold prepare at h
  simp only at h
  by_cases hn : todayIds names now.dayName+1 > 999999999
  · simp [hn] at h
  · rw [if_neg hn] at h
    obtain ⟨journal,hj,h⟩ := except_bind h
    obtain ⟨e,-,h⟩ := except_bind h
    simp only [pure,Except.pure,Except.ok.injEq,Prod.mk.injEq] at h
    obtain ⟨rfl,rfl,rfl⟩ := h
    obtain ⟨sound,last⟩ := firstJournal_sound hj
    exact ⟨idName_fresh (by omega),idName_visible ..,sound,by simp [recordOf,last]⟩

end CircuitBreaker.Lifecycle
