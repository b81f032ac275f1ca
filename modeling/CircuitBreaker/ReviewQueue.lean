import CircuitBreaker.StepRuns
import Mathlib.Logic.Function.Basic

/-! The review queue of scan results. Operators accept and reject its rows, scans merge rows by
themselves and mark repeated observations; a bulk action is one decision after another. Every
database statement is a step of its own and reads what is committed; the advisory lock of a
tenant and the row locks of updates are held to the end of their transaction. -/

namespace CircuitBreaker.ReviewQueue
open StepRuns List Function

inductive Source where
  | proxmox | docker | other
  deriving DecidableEq

inductive State where
  | new | matched | conflict
  deriving DecidableEq

inductive Status where
  | pending | accepted | merged | rejected | duplicate
  deriving DecidableEq

/-- `accepted` and `merged` take the result into the inventory. -/
def Status.takes : Status → Bool
  | .accepted | .merged => true
  | _ => false

inductive Entity where
  | hardware (id : Nat)
  | computeUnit (id : Nat)
  deriving DecidableEq

def Entity.isHardware : Entity → Bool
  | .hardware _ => true
  | .computeUnit _ => false

/-- `entity` is the matched entity's type with its id. -/
structure ScanResult where
  tenant : Option Nat
  source : Source
  state : State := .new
  entity : Option Entity := none
  status : Status := .pending

/-- The columns a new classification sets; without a match it sets none. -/
structure Columns where
  state : Option State := none
  entity : Option Entity := none

/-- What a transaction is going to commit for a result: columns and status of the row, and the
entities it has inserted or found. -/
structure Decision where
  status : Status
  columns : Columns := {}
  creates : List Entity := []
  finds : List Entity := []

def ScanResult.amend (row : ScanResult) (columns : Columns) : ScanResult :=
  {row with
    state := columns.state.getD row.state
    entity := columns.entity.or row.entity}

def ScanResult.decide (row : ScanResult) (decision : Decision) : ScanResult :=
  {row.amend decision.columns with status := decision.status}

inductive Job where
  | accept (r : Nat)
  | auto (r : Nat)
  | deduplicate (tenant : Option Nat)

/-- Where a transaction on the queue stands. `copy` is the session's own copy of the row. -/
inductive Stage where
  | idle
  | reading (r : Nat) (reject : Bool)
  | locked (job : Job)
  | checked (r : Nat) (auto : Bool) (copy : ScanResult) (columns : Columns)
  | saved (r : Nat) (copy : ScanResult) (columns : Columns)
  | ready (r : Nat) (decision : Decision)
  | half (r : Nat) (decision : Decision)
  | upserted (r : Nat) (decision : Decision)
  | written (r : Nat) (decision : Decision) (underLock : Bool)
  | marking (tenant : Option Nat) (todo marked : List Nat)
  | done

structure World where
  rows : Nat → Option ScanResult := fun _ => none
  entities : List Entity := []
  nextId : Nat := 0
  lock : Nat → Option Nat := fun _ => none
  writer : Nat → Option Nat := fun _ => none
  stage : Nat → Stage := fun _ => .idle
  /-- The entities created on behalf of a result, those it was matched to and the final statuses
  it was given; kept for the statement, read by nothing. -/
  created : Nat → List Entity := fun _ => []
  matched : Nat → List Entity := fun _ => []
  outcomes : Nat → List Status := fun _ => []

/-- What a Proxmox payload describes, with the inventory's rows for it. -/
inductive Payload where
  | node (found : Option Nat)
  | vm (parent unit : Option Nat)

inductive Act where
  | ingest (r : Nat) (row : ScanResult)
  | delete (e : Entity)
  | read (d r : Nat) (reject : Bool)
  | lockReviewQueue (d : Nat) (job : Job)
  | refresh (d : Nat) (found : Option (State × Nat))
  | savepoint (d : Nat)
  | apply (d : Nat)
  | commitFirst (d : Nat)
  | upsert (d : Nat) (payload : Payload)
  | write (d : Nat)
  | commit (d : Nat)
  | giveUp (d : Nat) (keep : Bool)
  | scan (d : Nat) (rows : List Nat)
  | mark (d : Nat)
  | commitMarks (d : Nat)

def lockKey (tenant : Option Nat) : Nat := tenant.getD 0

def World.to (w : World) (d : Nat) (stage : Stage) : World :=
  {w with stage := Function.update w.stage d stage}

def World.leave (w : World) (d : Nat) : World :=
  {w.to d .done with
    lock := fun key => if w.lock key = some d then none else w.lock key
    writer := fun r => if w.writer r = some d then none else w.writer r}

def World.update (w : World) (d r : Nat) : World :=
  {w with writer := Function.update w.writer r (some d)}

def World.free (w : World) (d r : Nat) : Bool :=
  w.writer r = none || w.writer r = some d

def World.ingest (w : World) (r : Nat) (row : ScanResult) : World :=
  {w with
    rows := Function.update w.rows r (some row)
    outcomes := Function.update w.outcomes r
      (if row.status = .duplicate then [.duplicate] else [])}

def World.amend (w : World) (r : Nat) (columns : Columns) : World :=
  {w with rows := Function.update w.rows r ((w.rows r).map (·.amend columns))}

/-- What the first commit of an automatic merge makes visible: everything but the status. -/
def World.begin (w : World) (r : Nat) (columns : Columns) (creates finds : List Entity) : World :=
  {w.amend r columns with
    entities := w.entities ++ creates
    created := Function.update w.created r (w.created r ++ creates)
    matched := Function.update w.matched r (w.matched r ++ finds)}

def World.decide (w : World) (rs : List Nat) (decision : Decision) : World :=
  {w with
    rows := fun r => if r ∈ rs then (w.rows r).map (·.decide decision) else w.rows r
    entities := w.entities ++ decision.creates
    created := fun r => if r ∈ rs then w.created r ++ decision.creates else w.created r
    matched := fun r => if r ∈ rs then w.matched r ++ decision.finds else w.matched r
    outcomes := fun r => if r ∈ rs then w.outcomes r ++ [decision.status] else w.outcomes r}

def ScanResult.reclassified (row : ScanResult) (auto : Bool) : Bool :=
  row.state = .new && (row.source = .other || !auto && row.source ≠ .docker)

/-- The columns `classify_result` sets, from the hardware it matches and whether they differ. -/
def World.classify (w : World) (row : ScanResult) (auto : Bool) :
    Option (State × Nat) → Option Columns
  | none => some {}
  | some (state,e) =>
    if row.reclassified auto ∧ state ≠ .new ∧ .hardware e ∈ w.entities then
      some {state := some state, entity := some (.hardware e)}
    else none

def World.recheck (w : World) (d r : Nat) (auto : Bool) (found : Option (State × Nat)) :
    Option World :=
  match w.rows r with
  | none => none
  | some row =>
    if row.status ≠ .pending then some (w.leave d)
    else
      match w.classify row auto found with
      | none => none
      | some columns => some (w.to d (.checked r auto (row.amend columns) columns))

/-- The entities an upsert goes on with and those it inserts, in order: a node's hardware, or a
guest's parent hardware and its compute unit. -/
def World.upsert (w : World) : Payload → Option (Entity × List Entity × List Entity)
  | .node (some e) =>
    if .hardware e ∈ w.entities then some (.hardware e,[],[.hardware e]) else none
  | .node none => some (.hardware w.nextId,[.hardware w.nextId],[])
  | .vm parent unit =>
    if (∀ e ∈ parent, .hardware e ∈ w.entities) ∧ ∀ e ∈ unit, .computeUnit e ∈ w.entities then
      let node : List Entity := if parent = none then [.hardware w.nextId] else []
      match unit with
      | some e => some (.computeUnit e,node,[.computeUnit e])
      | none => some (.computeUnit (w.nextId+1),node ++ [.computeUnit (w.nextId+1)],[])
    else none

def next (w : World) : Act → Option World
  | .ingest r row =>
    if w.rows r = none ∧ (row.status = .pending ∨ row.status = .duplicate) then
      some (w.ingest r row)
    else none
  | .delete e => some {w with entities := w.entities.filter (· ≠ e)}
  | .read d r reject =>
    match w.stage d, w.rows r with
    | .idle, some row =>
      if row.status = .pending then some (w.to d (.reading r reject)) else some (w.to d .done)
    | _, _ => none
  | .lockReviewQueue d job =>
    match w.stage d, job with
    | .reading r false, .accept r' =>
      match w.rows r with
      | some row =>
        if r' = r ∧ row.source ≠ .proxmox ∧ w.lock (lockKey row.tenant) = none then
          some ({w with lock := Function.update w.lock (lockKey row.tenant) (some d)}.to d
            (.locked (.accept r)))
        else none
      | none => none
    | .idle, .auto r =>
      match w.rows r with
      | some row =>
        if w.lock (lockKey row.tenant) = none then
          some ({w with lock := Function.update w.lock (lockKey row.tenant) (some d)}.to d
            (.locked (.auto r)))
        else none
      | none => none
    | .idle, .deduplicate tenant =>
      if w.lock (lockKey tenant) = none then
        some ({w with lock := Function.update w.lock (lockKey tenant) (some d)}.to d
          (.locked (.deduplicate tenant)))
      else none
    | _, _ => none
  | .refresh d found =>
    match w.stage d with
    | .locked (.accept r) => w.recheck d r false found
    | .locked (.auto r) => w.recheck d r true found
    | _ => none
  | .savepoint d =>
    match w.stage d with
    | .checked r false copy columns =>
      if columns.state = some .conflict then none
      else if columns.state = none then some (w.to d (.saved r copy columns))
      else if w.free d r then some ((w.update d r).to d (.saved r copy columns))
      else none
    | _ => none
  | .apply d =>
    match w.stage d with
    | .saved r copy columns =>
      match copy.state, copy.entity with
      | .new, _ =>
        some ({w with nextId := w.nextId+1}.to d (.ready r {
          status := .accepted
          columns := {columns with entity := some (.hardware w.nextId)}
          creates := [.hardware w.nextId]}))
      | _, some (.hardware e) =>
        if .hardware e ∈ w.entities then
          some (w.to d (.ready r {
            status := .accepted, columns := columns, finds := [.hardware e]}))
        else some (w.leave d)
      | _, _ => some (w.leave d)
    | _ => none
  | .commitFirst d =>
    match w.stage d with
    | .checked r true copy columns =>
      if columns.state = none ∨ w.free d r then
        match copy.state, copy.entity with
        | .new, _ =>
          some ({(w.begin r columns [.hardware w.nextId] []).leave d with
            nextId := w.nextId+1}.to d
              (.half r {status := .merged, columns := {entity := some (.hardware w.nextId)}}))
        | .matched, some (.hardware e) =>
          if .hardware e ∈ w.entities then
            some (((w.begin r columns [] [.hardware e]).leave d).to d (.half r {status := .merged}))
          else some (w.leave d)
        | _, _ => some (w.leave d)
      else none
    | _ => none
  | .upsert d payload =>
    match w.stage d with
    | .reading r false =>
      match w.rows r, w.upsert payload with
      | some row, some (e,creates,finds) =>
        if row.source = .proxmox then
          some ({w with nextId := w.nextId+2}.to d (.upserted r {
            status := .accepted, columns := {entity := some e}, creates := creates, finds := finds}))
        else none
      | _, _ => none
    | _ => none
  | .write d =>
    match w.stage d with
    | .reading r true =>
      if w.free d r then some ((w.update d r).to d (.written r {status := .rejected} false)) else none
    | .ready r decision =>
      if w.free d r then some ((w.update d r).to d (.written r decision true)) else none
    | .half r decision | .upserted r decision =>
      if w.free d r then some ((w.update d r).to d (.written r decision false)) else none
    | _ => none
  | .commit d =>
    match w.stage d with
    | .written r decision _ => some ((w.decide [r] decision).leave d)
    | _ => none
  | .giveUp d keep =>
    match w.stage d with
    | .checked r _ _ columns | .saved r _ columns =>
      if keep then
        if columns.state = none ∨ w.free d r then some ((w.amend r columns).leave d) else none
      else some (w.leave d)
    | .reading _ _ | .locked _ | .ready _ _ | .upserted _ _ => some (w.leave d)
    | _ => none
  | .scan d rows =>
    match w.stage d with
    | .locked (.deduplicate tenant) =>
      if ∀ r ∈ rows, ∃ row ∈ w.rows r,
          row.status = .pending ∧ row.tenant = tenant ∧ row.source = .other then
        some (w.to d (.marking tenant rows []))
      else none
    | _ => none
  | .mark d =>
    match w.stage d with
    | .marking tenant (r :: todo) marked =>
      if w.free d r then some ((w.update d r).to d (.marking tenant todo (r :: marked))) else none
    | _ => none
  | .commitMarks d =>
    match w.stage d with
    | .marking _ [] marked => some ((w.decide marked {status := .duplicate}).leave d)
    | _ => none

def Step (w : World) (act : Act) (w' : World) : Prop := next w act = some w'

/-- What holds of the committed state: a result has one final status, one hardware made for it,
the entity it was taken in as, and none if it was rejected. -/
structure Exclusive (w : World) : Prop where
  once : ∀ r, (w.outcomes r).length ≤ 1
  single : ∀ r, ((w.created r).filter Entity.isHardware).length ≤ 1
  points : ∀ r row, w.rows r = some row → row.status.takes = true →
    ∃ e, row.entity = some e ∧ (e ∈ w.created r ∨ e ∈ w.matched r)
  rejected : ∀ r row, w.rows r = some row → row.status = .rejected → w.created r = []

/-- A transaction that has found the result pending for good, or has written its status. -/
def Stage.Deciding (r : Nat) : Stage → Prop
  | .checked r' _ _ _ | .saved r' _ _ | .ready r' _ | .half r' _ | .written r' _ _ => r' = r
  | .marking _ todo marked => r ∈ todo ∨ r ∈ marked
  | _ => False

/-- A decision under way that does not hold the queue lock: a reject, a Proxmox accept or the
second half of an automatic merge. -/
def Stage.Unlocked (r : Nat) : Stage → Prop
  | .half r' _ | .written r' _ false => r' = r
  | _ => False

def Meets (w : World) : Act → Prop
  -- Without the lock, a status is written only where the result is still pending and nobody
  -- else is deciding on it.
  | .write d => ∀ r, (w.stage d = .reading r true ∨ ∃ decision, w.stage d = .upserted r decision) →
      (∃ row, w.rows r = some row ∧ row.status = .pending) ∧
      ∀ d', d' ≠ d → ¬(w.stage d').Deciding r
  -- Under the lock, a result is found pending only where nobody decides on it without the lock.
  | .refresh d _ => ∀ r, (w.stage d = .locked (.accept r) ∨ w.stage d = .locked (.auto r)) →
      ∀ d', ¬(w.stage d').Unlocked r
  | .scan _ rows => ∀ r ∈ rows, ∀ d', ¬(w.stage d').Unlocked r
  | _ => True

section Proofs
variable {w w' : World} {d d' r : Nat} {stage : Stage} {decision : Decision}

structure Open (w : World) (r : Nat) : Prop where
  pending : ∃ row, w.rows r = some row ∧ row.status = .pending
  undecided : w.outcomes r = []
  uncreated : w.created r = []

structure Decided (w : World) (r : Nat) (decision : Decision) : Prop where
  undecided : w.outcomes r = []
  final : decision.status ≠ .pending
  single : ((w.created r ++ decision.creates).filter Entity.isHardware).length ≤ 1
  empty : decision.status.takes = false → w.created r ++ decision.creates = []
  row : ∃ row, w.rows r = some row ∧ row.status = .pending ∧ (decision.status.takes = true →
    ∃ e, decision.columns.entity.or row.entity = some e ∧
      (e ∈ w.created r ++ decision.creates ∨ e ∈ w.matched r ++ decision.finds))

def Holds (w : World) (d r : Nat) : Prop :=
  ∃ row, w.rows r = some row ∧ w.lock (lockKey row.tenant) = some d

def Placed (w : World) (d : Nat) : Stage → Prop
  | .locked (.accept r) | .locked (.auto r) => Holds w d r
  | .locked (.deduplicate tenant) => w.lock (lockKey tenant) = some d
  | .checked r _ copy columns | .saved r copy columns => Holds w d r ∧ Open w r ∧
      ∃ row, w.rows r = some row ∧ copy = row.amend columns
  | .ready r decision => Holds w d r ∧ Decided w r decision ∧ w.created r = []
  | .half r decision => Decided w r decision
  | .upserted _ decision => decision.status = .accepted ∧
      (decision.creates.filter Entity.isHardware).length ≤ 1 ∧
      ∃ e, decision.columns.entity = some e ∧ (e ∈ decision.creates ∨ e ∈ decision.finds)
  | .written r decision underLock => (underLock = true → Holds w d r) ∧ Decided w r decision
  | .marking _ todo marked => ∀ r, r ∈ todo ∨ r ∈ marked → Holds w d r ∧ Open w r
  | _ => True

structure Settled (w : World) (r : Nat) : Prop where
  absent : w.rows r = none → w.outcomes r = [] ∧ w.created r = []
  pending : ∀ row, w.rows r = some row → row.status = .pending → w.outcomes r = [] ∧
    ((∀ d, ¬(w.stage d).Deciding r) → w.created r = [])
  final : ∀ row, w.rows r = some row → row.status ≠ .pending → w.outcomes r = [row.status] ∧
    ((w.created r).filter Entity.isHardware).length ≤ 1 ∧
    (row.status.takes = true → ∃ e, row.entity = some e ∧ (e ∈ w.created r ∨ e ∈ w.matched r)) ∧
    (row.status.takes = false → w.created r = [])

structure Sound (w : World) : Prop where
  alone : ∀ d d' r, (w.stage d).Deciding r → (w.stage d').Deciding r → d = d'
  placed : ∀ d, Placed w d (w.stage d)
  settled : ∀ r, Settled w r

structure Same (w w' : World) (r : Nat) : Prop where
  rows : w'.rows r = w.rows r
  created : w'.created r = w.created r
  matched : w'.matched r = w.matched r
  outcomes : w'.outcomes r = w.outcomes r

def Keeps (w w' : World) : Prop :=
  ∀ r row, w.rows r = some row → ∃ row', w'.rows r = some row' ∧ row'.tenant = row.tenant

theorem Open.same (same : Same w w' r) (h : Open w r) : Open w' r where
  pending := by
    rw [same.rows]
    exact h.pending
  undecided := same.outcomes.trans h.undecided
  uncreated := same.created.trans h.uncreated

theorem Decided.same (same : Same w w' r) (h : Decided w r decision) : Decided w' r decision where
  __ := h
  undecided := same.outcomes.trans h.undecided
  single := by
    rw [same.created]
    exact h.single
  empty := by
    rw [same.created]
    exact h.empty
  row := by
    rw [same.rows,same.created,same.matched]
    exact h.row

theorem Holds.keeps (keeps : Keeps w w')
    (locks : ∀ key, w.lock key = some d → w'.lock key = some d) (h : Holds w d r) :
    Holds w' d r := by
  obtain ⟨row,hrow,held⟩ := h
  obtain ⟨row',hrow',tenant⟩ := keeps r row hrow
  refine ⟨row',hrow',?_⟩
  rw [tenant]
  exact locks _ held

theorem Placed.frame (keeps : Keeps w w')
    (locks : ∀ key, w.lock key = some d → w'.lock key = some d)
    (same : ∀ r, stage.Deciding r → Same w w' r) (h : Placed w d stage) : Placed w' d stage := by
  cases stage with
  | locked job =>
    cases job with
    | deduplicate tenant => exact locks _ h
    | _ => exact Holds.keeps keeps locks h
  | checked r _ _ _ | saved r _ _ =>
    have here := same r rfl
    refine ⟨h.1.keeps keeps locks,h.2.1.same here,?_⟩
    rw [here.rows]
    exact h.2.2
  | ready r _ =>
    have here := same r rfl
    exact ⟨h.1.keeps keeps locks,h.2.1.same here,here.created.trans h.2.2⟩
  | half r _ => exact Decided.same (same r rfl) h
  | written r _ _ => exact ⟨fun held => (h.1 held).keeps keeps locks,h.2.same (same r rfl)⟩
  | marking _ todo marked =>
    exact fun r mem => ⟨(h r mem).1.keeps keeps locks,(h r mem).2.same (same r mem)⟩
  | upserted => exact h
  | _ => trivial

theorem Placed.pending (h : Placed w d stage) (deciding : stage.Deciding r) :
    ∃ row, w.rows r = some row ∧ row.status = .pending := by
  cases stage with
  | checked | saved =>
    cases deciding
    exact h.2.1.pending
  | ready =>
    cases deciding
    obtain ⟨row,hrow,pending,-⟩ := h.2.1.row
    exact ⟨row,hrow,pending⟩
  | half =>
    cases deciding
    obtain ⟨row,hrow,pending,-⟩ := Decided.row h
    exact ⟨row,hrow,pending⟩
  | written =>
    cases deciding
    obtain ⟨row,hrow,pending,-⟩ := h.2.row
    exact ⟨row,hrow,pending⟩
  | marking => exact (h r deciding).2.pending
  | _ => cases deciding

theorem Placed.single (h : Placed w d stage) (deciding : stage.Deciding r) :
    ((w.created r).filter Entity.isHardware).length ≤ 1 := by
  have made : ∀ {decision : Decision}, Decided w r decision →
      ((w.created r).filter Entity.isHardware).length ≤ 1 := by
    intro decision decided
    have both := decided.single
    rw [filter_append,length_append] at both
    omega
  have opened : Open w r → ((w.created r).filter Entity.isHardware).length ≤ 1 := by
    intro opened
    rw [opened.uncreated]
    exact Nat.zero_le 1
  cases stage with
  | checked | saved =>
    cases deciding
    exact opened h.2.1
  | ready =>
    cases deciding
    exact made h.2.1
  | half =>
    cases deciding
    exact made h
  | written =>
    cases deciding
    exact made h.2
  | marking => exact opened (h r deciding).2
  | _ => cases deciding

theorem Sound.move (h : Sound w) (stages : w'.stage = Function.update w.stage d stage)
    (keeps : Keeps w w') (locks : ∀ d', d' ≠ d → ∀ key, w.lock key = some d' → w'.lock key = some d')
    (same : ∀ r, ¬(w.stage d).Deciding r → Same w w' r)
    (apart : ∀ r, stage.Deciding r →
      (w.stage d).Deciding r ∨ ∀ d', d' ≠ d → ¬(w.stage d').Deciding r)
    (placed : Placed w' d stage)
    (settled : ∀ r, (w.stage d).Deciding r → Settled w' r) : Sound w' := by
  have here : w'.stage d = stage := by rw [stages,update_self]
  have there : ∀ d', d' ≠ d → w'.stage d' = w.stage d' := fun d' ne => by
    rw [stages,update_of_ne ne]
  have others : ∀ d' r, d' ≠ d → (w.stage d').Deciding r → ¬(w.stage d).Deciding r :=
    fun d' r ne theirs ours => ne (h.alone d' d r theirs ours)
  have unique : ∀ d' r, d' ≠ d → (w.stage d').Deciding r → ¬stage.Deciding r := by
    intro d' r ne theirs ours
    rcases apart r ours with before | free
    · exact others d' r ne theirs before
    · exact free d' ne theirs
  constructor
  · intro d₁ d₂ r one two
    by_cases e₁ : d₁ = d <;> by_cases e₂ : d₂ = d
    · rw [e₁,e₂]
    · rw [e₁,here] at one
      rw [there d₂ e₂] at two
      exact absurd one (unique d₂ r e₂ two)
    · rw [e₂,here] at two
      rw [there d₁ e₁] at one
      exact absurd two (unique d₁ r e₁ one)
    · rw [there d₁ e₁] at one
      rw [there d₂ e₂] at two
      exact h.alone d₁ d₂ r one two
  · intro d'
    by_cases eq : d' = d
    · rw [eq,here]
      exact placed
    · rw [there d' eq]
      exact (h.placed d').frame keeps (locks d' eq) fun r deciding =>
        same r (others d' r eq deciding)
  · intro r
    by_cases deciding : (w.stage d).Deciding r
    · exact settled r deciding
    have kept := same r deciding
    have old := h.settled r
    constructor
    · rw [kept.rows,kept.outcomes,kept.created]
      exact old.absent
    · intro row hrow pending
      rw [kept.rows] at hrow
      rw [kept.outcomes,kept.created]
      refine ⟨(old.pending row hrow pending).1,fun nobody => (old.pending row hrow pending).2 ?_⟩
      intro d'
      by_cases eq : d' = d
      · rw [eq]
        exact deciding
      · rw [←there d' eq]
        exact nobody d'
    · rw [kept.rows,kept.outcomes,kept.created,kept.matched]
      exact old.final

theorem Same.refl (w : World) (r : Nat) : Same w w r := ⟨rfl,rfl,rfl,rfl⟩

theorem Keeps.of_same (same : ∀ r, Same w w' r) : Keeps w w' := fun r row hrow =>
  ⟨row,(same r).rows.trans hrow,rfl⟩

theorem Placed.to {stage' : Stage} (h : Placed w d stage) : Placed (w.to d' stage') d stage := by
  have same : ∀ r, Same w (w.to d' stage') r := fun _ => ⟨rfl,rfl,rfl,rfl⟩
  exact h.frame (.of_same same) (fun _ held => held) fun r _ => same r

theorem Sound.walk (h : Sound w) (stages : w'.stage = Function.update w.stage d stage)
    (same : ∀ r, Same w w' r)
    (locks : ∀ d', d' ≠ d → ∀ key, w.lock key = some d' → w'.lock key = some d')
    (apart : ∀ r, stage.Deciding r →
      (w.stage d).Deciding r ∨ ∀ d', d' ≠ d → ¬(w.stage d').Deciding r)
    (stays : ∀ r, (w.stage d).Deciding r → stage.Deciding r ∨ w.created r = [])
    (placed : Placed w' d stage) : Sound w' := by
  refine h.move stages (.of_same same) locks (fun r _ => same r) apart placed ?_
  intro r deciding
  have old := h.settled r
  have kept := same r
  constructor
  · rw [kept.rows,kept.outcomes,kept.created]
    exact old.absent
  · intro row hrow pending
    rw [kept.rows] at hrow
    rw [kept.outcomes,kept.created]
    refine ⟨(old.pending row hrow pending).1,fun nobody => ?_⟩
    refine (stays r deciding).resolve_left fun still => nobody d ?_
    rw [stages,update_self]
    exact still
  · rw [kept.rows,kept.outcomes,kept.created,kept.matched]
    exact old.final

theorem leave_lock {key : Nat} (ne : d' ≠ d) (h : w.lock key = some d') :
    (w.leave d).lock key = some d' := by
  change (if w.lock key = some d then none else w.lock key) = some d'
  rw [if_neg fun held => ne (Option.some.inj (h.symm.trans held)),h]

theorem Sound.leave (h : Sound w)
    (stays : ∀ r, (w.stage d).Deciding r → w.created r = []) : Sound (w.leave d) :=
  h.walk rfl (fun _ => ⟨rfl,rfl,rfl,rfl⟩) (fun _ ne _ => leave_lock ne) (fun _ none => none.elim)
    (fun r deciding => .inr (stays r deciding)) trivial

theorem amend_self {columns : Columns} {row : ScanResult} (hrow : w.rows r = some row) :
    (w.amend r columns).rows r = some (row.amend columns) := by
  change Function.update w.rows r _ r = _
  rw [update_self,hrow]
  rfl

theorem amend_other {columns : Columns} {r' : Nat} (ne : r' ≠ r) :
    (w.amend r columns).rows r' = w.rows r' :=
  update_of_ne ne _ _

theorem amend_keeps {columns : Columns} : Keeps w (w.amend r columns) := by
  intro r' row hrow
  by_cases eq : r' = r
  · subst eq
    exact ⟨_,amend_self hrow,rfl⟩
  · exact ⟨row,(amend_other eq).trans hrow,rfl⟩

theorem Sound.amend {columns : Columns} (h : Sound w) (only : ∀ r', (w.stage d).Deciding r' → r' = r)
    (deciding : (w.stage d).Deciding r) (opened : Open w r) :
    Sound ((w.amend r columns).leave d) := by
  refine h.move rfl amend_keeps (fun _ ne _ => leave_lock ne) (fun r' other => ?_)
    (fun _ none => none.elim) trivial ?_
  · exact ⟨amend_other fun eq => other (eq ▸ deciding),rfl,rfl,rfl⟩
  · intro r' deciding
    obtain rfl := only r' deciding
    obtain ⟨row,hrow,pending⟩ := opened.pending
    have after : ((w.amend r' columns).leave d).rows r' = some (row.amend columns) := amend_self hrow
    constructor
    · intro gone
      cases after.symm.trans gone
    · exact fun _ _ _ => ⟨opened.undecided,fun _ => opened.uncreated⟩
    · intro row' hrow' final
      cases after.symm.trans hrow'
      exact absurd pending final

theorem Sound.begin {columns : Columns} {creates finds : List Entity} (h : Sound w)
    (stages : w'.stage = Function.update w.stage d (.half r decision))
    (only : ∀ r', (w.stage d).Deciding r' → r' = r) (deciding : (w.stage d).Deciding r)
    (visible : ∀ r', Same (w.begin r columns creates finds) w' r')
    (locks : ∀ d', d' ≠ d → ∀ key, w.lock key = some d' → w'.lock key = some d')
    (decided : Decided (w.begin r columns creates finds) r decision) : Sound w' := by
  have after := decided.same (visible r)
  refine h.move stages ?_ locks ?_ (fun r' here => .inl (here ▸ deciding)) after ?_
  · intro r' row hrow
    rw [(visible r').rows]
    exact amend_keeps r' row hrow
  · intro r' other
    have ne : r' ≠ r := fun eq => other (eq ▸ deciding)
    have seen := visible r'
    exact ⟨seen.rows.trans (amend_other ne),seen.created.trans (update_of_ne ne _ _),
      seen.matched.trans (update_of_ne ne _ _),seen.outcomes⟩
  · intro r' deciding'
    obtain rfl := only r' deciding'
    obtain ⟨row,hrow,pending,-⟩ := after.row
    constructor
    · intro gone
      cases hrow.symm.trans gone
    · refine fun _ _ _ => ⟨after.undecided,fun nobody => absurd ?_ (nobody d)⟩
      rw [stages,update_self]
      rfl
    · intro row' hrow' final
      cases hrow.symm.trans hrow'
      exact absurd pending final

theorem decide_keeps {rs : List Nat} : Keeps w (w.decide rs decision) := by
  intro r row hrow
  by_cases mem : r ∈ rs
  · refine ⟨row.decide decision,?_,rfl⟩
    change (if r ∈ rs then _ else _) = _
    rw [if_pos mem,hrow]
    rfl
  · refine ⟨row,?_,rfl⟩
    change (if r ∈ rs then _ else _) = _
    rw [if_neg mem,hrow]

theorem decide_other {rs : List Nat} (other : r ∉ rs) : Same w (w.decide rs decision) r :=
  ⟨if_neg other,if_neg other,if_neg other,if_neg other⟩

theorem decide_settled {rs : List Nat} (mem : r ∈ rs) (h : Decided w r decision)
    (rows : w'.rows r = (w.decide rs decision).rows r)
    (created : w'.created r = (w.decide rs decision).created r)
    (matched : w'.matched r = (w.decide rs decision).matched r)
    (outcomes : w'.outcomes r = (w.decide rs decision).outcomes r) : Settled w' r := by
  obtain ⟨row,hrow,pending,points⟩ := h.row
  have after : w'.rows r = some (row.decide decision) := by
    rw [rows]
    change (if r ∈ rs then _ else _) = _
    rw [if_pos mem,hrow]
    rfl
  have made : w'.created r = w.created r ++ decision.creates := created.trans (if_pos mem)
  have met : w'.matched r = w.matched r ++ decision.finds := matched.trans (if_pos mem)
  have ended : w'.outcomes r = [decision.status] := by
    rw [outcomes]
    change (if r ∈ rs then _ else _) = _
    rw [if_pos mem,h.undecided]
    rfl
  constructor
  · intro gone
    cases after.symm.trans gone
  · intro row' hrow' open_
    cases after.symm.trans hrow'
    exact absurd open_ h.final
  · intro row' hrow' _
    cases after.symm.trans hrow'
    rw [made,met]
    exact ⟨ended,h.single,points,h.empty⟩

theorem Sound.decide {rs : List Nat} (h : Sound w) (only : ∀ r, (w.stage d).Deciding r ↔ r ∈ rs)
    (decided : ∀ r ∈ rs, Decided w r decision) : Sound ((w.decide rs decision).leave d) := by
  refine h.move rfl decide_keeps (fun _ ne _ => leave_lock ne) ?_ (fun _ none => none.elim) trivial ?_
  · intro r other
    have kept : Same w (w.decide rs decision) r := decide_other fun mem => other ((only r).mpr mem)
    exact ⟨kept.rows,kept.created,kept.matched,kept.outcomes⟩
  · intro r deciding
    have mem := (only r).mp deciding
    exact decide_settled mem (decided r mem) rfl rfl rfl rfl

theorem Holds.unique (one : Holds w d r) (two : Holds w d' r) : d = d' := by
  obtain ⟨row,hrow,held⟩ := one
  obtain ⟨row',hrow',held'⟩ := two
  cases hrow.symm.trans hrow'
  exact Option.some.inj (held.symm.trans held')

theorem Placed.holds (h : Placed w d stage) (deciding : stage.Deciding r) :
    Holds w d r ∨ stage.Unlocked r := by
  cases stage with
  | checked | saved | ready =>
    cases deciding
    exact .inl h.1
  | half => exact .inr deciding
  | written _ _ underLock =>
    cases deciding
    cases underLock with
    | true => exact .inl (h.1 rfl)
    | false => exact .inr rfl
  | marking => exact .inl (h r deciding).1
  | _ => cases deciding

theorem Sound.sole (h : Sound w) (held : Holds w d r) (locked : ∀ d', ¬(w.stage d').Unlocked r)
    (ne : d' ≠ d) : ¬(w.stage d').Deciding r := by
  intro deciding
  rcases (h.placed d').holds deciding with theirs | free
  · exact ne (theirs.unique held)
  · exact locked d' free

theorem Sound.opened {row : ScanResult} (h : Sound w) (hrow : w.rows r = some row)
    (pending : row.status = .pending) (nobody : ∀ d, ¬(w.stage d).Deciding r) : Open w r where
  pending := ⟨row,hrow,pending⟩
  undecided := ((h.settled r).pending row hrow pending).1
  uncreated := ((h.settled r).pending row hrow pending).2 nobody

theorem Open.unlinked {status : Status} (h : Open w r) (final : status ≠ .pending)
    (drops : status.takes = false) : Decided w r {status := status} where
  undecided := h.undecided
  final := final
  single := by
    rw [h.uncreated]
    exact Nat.zero_le 1
  empty := fun _ => by
    rw [h.uncreated]
    rfl
  row := by
    obtain ⟨row,hrow,pending⟩ := h.pending
    exact ⟨row,hrow,pending,fun takes => absurd takes (by rw [drops]; exact Bool.false_ne_true)⟩

theorem Open.linked {row : ScanResult} {e : Entity} (h : Open w r)
    (hrow : w.rows r = some row) (final : decision.status ≠ .pending)
    (takes : decision.status.takes = true)
    (single : (decision.creates.filter Entity.isHardware).length ≤ 1)
    (entity : decision.columns.entity.or row.entity = some e)
    (known : e ∈ decision.creates ∨ e ∈ decision.finds) : Decided w r decision where
  undecided := h.undecided
  final := final
  single := by
    rw [h.uncreated]
    exact single
  empty := fun drops => nomatch takes.symm.trans drops
  row := by
    obtain ⟨row',hrow',pending⟩ := h.pending
    cases hrow.symm.trans hrow'
    refine ⟨row,hrow,pending,fun _ => ⟨e,entity,?_⟩⟩
    exact known.imp (mem_append_right _) (mem_append_right _)

theorem Sound.ingest {row : ScanResult} (h : Sound w) (new : w.rows r = none)
    (status : row.status = .pending ∨ row.status = .duplicate) : Sound (w.ingest r row) := by
  have other : ∀ r', r' ≠ r → Same w (w.ingest r row) r' := fun r' ne =>
    ⟨update_of_ne ne _ _,rfl,rfl,update_of_ne ne _ _⟩
  have nobody : ∀ d, ¬(w.stage d).Deciding r := by
    intro d deciding
    obtain ⟨row,hrow,-⟩ := (h.placed d).pending deciding
    cases new.symm.trans hrow
  have keeps : Keeps w (w.ingest r row) := by
    intro r' row' hrow'
    refine ⟨row',(other r' fun eq => ?_).rows.trans hrow',rfl⟩
    rw [eq,new] at hrow'
    cases hrow'
  refine ⟨h.alone,fun d => (h.placed d).frame keeps (fun _ held => held) fun r' deciding =>
    other r' fun eq => nobody d (eq ▸ deciding),fun r' => ?_⟩
  by_cases eq : r' = r
  · subst eq
    have empty := ((h.settled r').absent new).2
    constructor
    · intro gone
      change Function.update w.rows r' _ r' = none at gone
      rw [update_self] at gone
      cases gone
    · intro row' hrow' pending
      change Function.update w.rows r' _ r' = some row' at hrow'
      rw [update_self] at hrow'
      cases hrow'
      refine ⟨?_,fun _ => empty⟩
      change Function.update w.outcomes r' _ r' = []
      rw [update_self,pending]
      rfl
    · intro row' hrow' final
      change Function.update w.rows r' _ r' = some row' at hrow'
      rw [update_self] at hrow'
      cases hrow'
      have duplicate := status.resolve_left final
      change Function.update w.outcomes r' _ r' = _ ∧ ((w.created r').filter _).length ≤ 1 ∧ _ ∧ _
      rw [update_self,duplicate,empty]
      exact ⟨rfl,Nat.zero_le 1,nofun,fun _ => empty⟩
  · have kept := other r' eq
    have old := h.settled r'
    constructor
    · rw [kept.rows,kept.outcomes,kept.created]
      exact old.absent
    · rw [kept.rows,kept.outcomes,kept.created]
      exact old.pending
    · rw [kept.rows,kept.outcomes,kept.created,kept.matched]
      exact old.final

theorem Sound.lock {key : Nat} {job : Job} (h : Sound w) (free : w.lock key = none)
    (undecided : ∀ r, ¬(w.stage d).Deciding r)
    (placed : Placed {w with lock := Function.update w.lock key (some d)} d (.locked job)) :
    Sound ({w with lock := Function.update w.lock key (some d)}.to d (.locked job)) := by
  refine h.walk rfl (fun _ => ⟨rfl,rfl,rfl,rfl⟩) ?_ (fun _ none => none.elim)
    (fun r deciding => absurd deciding (undecided r)) ?_
  · intro d' _ key' held
    change Function.update w.lock key (some d) key' = some d'
    by_cases eq : key' = key
    · rw [eq,free] at held
      cases held
    · rw [update_of_ne eq]
      exact held
  · exact placed.to

theorem holds_locked {row : ScanResult} (hrow : w.rows r = some row) :
    Holds {w with lock := Function.update w.lock (lockKey row.tenant) (some d)} d r :=
  ⟨row,hrow,update_self _ _ _⟩

theorem Sound.recheck {auto : Bool} {found : Option (State × Nat)} (h : Sound w)
    (held : Holds w d r) (locked : ∀ d', ¬(w.stage d').Unlocked r)
    (undecided : ∀ r, ¬(w.stage d).Deciding r) (step : w.recheck d r auto found = some w') :
    Sound w' := by
  unfold World.recheck at step
  split at step
  · cases step
  case h_2 row hrow =>
    split at step
    · cases step
      exact h.leave fun r deciding => absurd deciding (undecided r)
    case isFalse pending =>
      split at step <;> cases step
      rename_i columns _
      have others : ∀ d', d' ≠ d → ¬(w.stage d').Deciding r := fun d' ne => h.sole held locked ne
      have nobody : ∀ d', ¬(w.stage d').Deciding r := by
        intro d'
        by_cases eq : d' = d
        · rw [eq]
          exact undecided r
        · exact others d' eq
      have placed : Placed w d (.checked r auto (row.amend columns) columns) :=
        ⟨held,h.opened hrow (not_not.mp pending) nobody,row,hrow,rfl⟩
      exact h.walk rfl (fun _ => ⟨rfl,rfl,rfl,rfl⟩) (fun _ _ _ held => held)
        (fun r' eq => .inr (eq ▸ others)) (fun r deciding => absurd deciding (undecided r))
        placed.to

theorem Sound.to {w₁ : World} (h : Sound w) (stages : w₁.stage = w.stage)
    (same : ∀ r, Same w w₁ r) (locks : w₁.lock = w.lock)
    (apart : ∀ r, stage.Deciding r →
      (w.stage d).Deciding r ∨ ∀ d', d' ≠ d → ¬(w.stage d').Deciding r)
    (stays : ∀ r, (w.stage d).Deciding r → stage.Deciding r) (placed : Placed w d stage) :
    Sound (w₁.to d stage) := by
  have seen : ∀ r, Same w (w₁.to d stage) r := fun r =>
    ⟨(same r).rows,(same r).created,(same r).matched,(same r).outcomes⟩
  have kept : ∀ d' key, w.lock key = some d' → (w₁.to d stage).lock key = some d' :=
    fun d' key held => (congrFun locks key).trans held
  refine h.walk ?_ seen (fun d' _ => kept d') apart (fun r deciding => .inl (stays r deciding)) ?_
  · rw [←stages]
    rfl
  · exact placed.frame (.of_same seen) (kept d) fun r _ => seen r

theorem Sound.on {w₁ : World} (h : Sound w) (stages : w₁.stage = w.stage)
    (same : ∀ r, Same w w₁ r) (locks : w₁.lock = w.lock)
    (deciding : ∀ r, stage.Deciding r ↔ (w.stage d).Deciding r) (placed : Placed w d stage) :
    Sound (w₁.to d stage) :=
  h.to stages same locks (fun r now => .inl ((deciding r).mp now)) (fun r => (deciding r).mpr) placed

attribute [local simp] next

theorem Sound.apply (h : Sound w) (step : next w (.apply d) = some w') : Sound w' := by
  simp only [next] at step
  split at step
  case h_1 r copy columns hd =>
    have placed := h.placed d
    rw [hd] at placed
    obtain ⟨held,opened,row,hrow,hcopy⟩ := placed
    have abandoned : Sound (w.leave d) := h.leave fun r' deciding => by
      rw [hd] at deciding
      cases deciding
      exact opened.uncreated
    have same : ∀ decision r', (Stage.ready r decision).Deciding r' ↔ (w.stage d).Deciding r' := by
      intro decision r'
      rw [hd]
      rfl
    split at step
    · cases step
      exact h.on rfl (fun _ => ⟨rfl,rfl,rfl,rfl⟩) rfl (same _)
        ⟨held,opened.linked hrow nofun rfl (Nat.le_refl 1) rfl (.inl (.head _)),opened.uncreated⟩
    case h_2 e entity _ =>
      split at step
      · cases step
        rw [hcopy] at entity
        exact h.on rfl (fun _ => ⟨rfl,rfl,rfl,rfl⟩) rfl (same _)
          ⟨held,opened.linked hrow nofun rfl (Nat.zero_le 1) entity (.inr (.head _)),opened.uncreated⟩
      · cases step
        exact abandoned
    · cases step
      exact abandoned
  · cases step

theorem Open.begin {columns : Columns} {creates finds : List Entity} {row : ScanResult} {e : Entity}
    (h : Open w r) (hrow : w.rows r = some row) (merged : decision.status = .merged)
    (nothing : decision.creates = []) (single : (creates.filter Entity.isHardware).length ≤ 1)
    (entity : decision.columns.entity.or (row.amend columns).entity = some e)
    (known : e ∈ creates ∨ e ∈ finds) : Decided (w.begin r columns creates finds) r decision := by
  have created : (w.begin r columns creates finds).created r = creates := by
    change Function.update w.created r _ r = creates
    rw [update_self,h.uncreated]
    rfl
  have matched : (w.begin r columns creates finds).matched r = w.matched r ++ finds :=
    update_self _ _ _
  constructor
  · exact h.undecided
  · rw [merged]
    nofun
  · rw [created,nothing,append_nil]
    exact single
  · rw [merged]
    nofun
  · obtain ⟨row',hrow',pending⟩ := h.pending
    cases hrow.symm.trans hrow'
    refine ⟨row.amend columns,amend_self hrow,pending,fun _ => ⟨e,entity,?_⟩⟩
    rw [created,matched]
    exact known.imp (mem_append_left _)
      fun mem => mem_append_left _ (mem_append_right _ mem)

theorem Sound.commitFirst (h : Sound w) (step : next w (.commitFirst d) = some w') : Sound w' := by
  simp only [next] at step
  split at step
  case h_1 r copy columns hd =>
    have placed := h.placed d
    rw [hd] at placed
    obtain ⟨held,opened,row,hrow,hcopy⟩ := placed
    have only : ∀ r', (w.stage d).Deciding r' → r' = r := by
      intro r' deciding
      rw [hd] at deciding
      exact deciding.symm
    have deciding : (w.stage d).Deciding r := by
      rw [hd]
      rfl
    have abandoned : Sound (w.leave d) := h.leave fun r' deciding => by
      rw [only r' deciding]
      exact opened.uncreated
    have stages : ∀ stage, Function.update (Function.update w.stage d .done) d stage =
        Function.update w.stage d stage := fun stage => update_idem _ _ _
    split at step
    · split at step
      · cases step
        exact h.begin (stages _) only deciding (fun _ => ⟨rfl,rfl,rfl,rfl⟩)
          (fun _ ne _ => leave_lock ne)
          (opened.begin hrow rfl rfl (Nat.le_refl 1) rfl (.inl (.head _)))
      case h_2 e _ entity =>
        split at step
        · cases step
          rw [hcopy] at entity
          exact h.begin (stages _) only deciding (fun _ => ⟨rfl,rfl,rfl,rfl⟩)
            (fun _ ne _ => leave_lock ne)
            (opened.begin hrow rfl rfl (Nat.zero_le 1) entity (.inr (.head _)))
        · cases step
          exact abandoned
      · cases step
        exact abandoned
    · cases step
  · cases step

theorem upsert_known {payload : Payload} {e : Entity} {creates finds : List Entity}
    (h : w.upsert payload = some (e,creates,finds)) :
    (creates.filter Entity.isHardware).length ≤ 1 ∧ (e ∈ creates ∨ e ∈ finds) := by
  cases payload with
  | node found =>
    cases found with
    | none =>
      cases h
      exact ⟨Nat.le_refl 1,.inl (.head _)⟩
    | some e =>
      simp only [World.upsert] at h
      split at h <;> cases h
      exact ⟨Nat.zero_le 1,.inr (.head _)⟩
  | vm parent unit =>
    simp only [World.upsert] at h
    split at h
    · split at h
      · cases h
        refine ⟨?_,.inr (.head _)⟩
        split
        · exact Nat.le_refl 1
        · exact Nat.zero_le 1
      · cases h
        refine ⟨?_,.inl (mem_append_right _ (.head _))⟩
        split
        · exact Nat.le_refl 1
        · exact Nat.zero_le 1
    · cases h

theorem Sound.write (h : Sound w) (meets : Meets w (.write d))
    (step : next w (.write d) = some w') : Sound w' := by
  simp only [next] at step
  have placed := h.placed d
  -- A reject and a Proxmox accept begin to decide here, as the only ones.
  have alone : ∀ r, (w.stage d = .reading r true ∨ ∃ decision, w.stage d = .upserted r decision) →
      (∀ d', d' ≠ d → ¬(w.stage d').Deciding r) ∧ Open w r := by
    intro r here
    obtain ⟨⟨row,hrow,pending⟩,others⟩ := meets r here
    refine ⟨others,h.opened hrow pending fun d' => ?_⟩
    by_cases eq : d' = d
    · rw [eq]
      rcases here with hd | ⟨decision,hd⟩ <;> rw [hd] <;> exact id
    · exact others d' eq
  split at step
  case h_1 r hd =>
    split at step <;> cases step
    obtain ⟨others,opened⟩ := alone r (.inl hd)
    refine h.to rfl (fun _ => ⟨rfl,rfl,rfl,rfl⟩) rfl (fun r' eq => .inr (eq ▸ others)) ?_
      ⟨nofun,opened.unlinked nofun rfl⟩
    intro r' deciding
    rw [hd] at deciding
    cases deciding
  case h_2 r decision hd =>
    split at step <;> cases step
    rw [hd] at placed
    refine h.on rfl (fun _ => ⟨rfl,rfl,rfl,rfl⟩) rfl (fun r' => ?_) ⟨fun _ => placed.1,placed.2.1⟩
    rw [hd]
    rfl
  case h_3 r decision hd =>
    split at step <;> cases step
    rw [hd] at placed
    refine h.on rfl (fun _ => ⟨rfl,rfl,rfl,rfl⟩) rfl (fun r' => ?_) ⟨nofun,placed⟩
    rw [hd]
    rfl
  case h_4 r decision hd =>
    split at step <;> cases step
    rw [hd] at placed
    obtain ⟨accepted,single,e,entity,known⟩ := placed
    obtain ⟨others,opened⟩ := alone r (.inr ⟨decision,hd⟩)
    obtain ⟨row,hrow,-⟩ := opened.pending
    have decided : Decided w r decision := opened.linked hrow (by rw [accepted]; nofun)
      (by rw [accepted]; rfl) single (by rw [entity]; rfl) known
    refine h.to rfl (fun _ => ⟨rfl,rfl,rfl,rfl⟩) rfl (fun r' eq => .inr (eq ▸ others)) ?_
      ⟨nofun,decided⟩
    intro r' deciding
    rw [hd] at deciding
    cases deciding
  · cases step

theorem Sound.giveUp {keep : Bool} (h : Sound w) (step : next w (.giveUp d keep) = some w') :
    Sound w' := by
  simp only [next] at step
  have placed := h.placed d
  have checked : ∀ r columns, (∀ r', (w.stage d).Deciding r' ↔ r = r') → Open w r →
      (if keep then
        if columns.state = none ∨ w.free d r then some ((w.amend r columns).leave d) else none
        else some (w.leave d)) = some w' → Sound w' := by
    intro r columns deciding opened step
    split at step
    · split at step <;> cases step
      exact h.amend (fun r' here => ((deciding r').mp here).symm) ((deciding r).mpr rfl) opened
    · cases step
      exact h.leave fun r' here => (deciding r').mp here ▸ opened.uncreated
  split at step
  case h_1 r auto copy columns hd =>
    rw [hd] at placed
    exact checked r columns (fun r' => by rw [hd]; rfl) placed.2.1 step
  case h_2 r copy columns hd =>
    rw [hd] at placed
    exact checked r columns (fun r' => by rw [hd]; rfl) placed.2.1 step
  case h_5 r decision hd =>
    cases step
    refine h.leave fun r' deciding => ?_
    rw [hd] at placed deciding
    cases deciding
    exact placed.2.2
  case h_7 => cases step
  all_goals
    rename_i hd
    cases step
    exact h.leave fun r' deciding => by
      rw [hd] at deciding
      cases deciding

theorem Sound.scan {rows : List Nat} (h : Sound w) (meets : Meets w (.scan d rows))
    (step : next w (.scan d rows) = some w') : Sound w' := by
  simp only [next] at step
  split at step
  case h_1 tenant hd =>
    split at step <;> cases step
    rename_i all
    have placed := h.placed d
    rw [hd] at placed
    have idle : ∀ r, ¬(w.stage d).Deciding r := fun r => by
      rw [hd]
      exact id
    have held : ∀ r ∈ rows, Holds w d r := by
      intro r mem
      obtain ⟨row,hrow,-,same,-⟩ := all r mem
      refine ⟨row,hrow,?_⟩
      rw [same]
      exact placed
    have others : ∀ r ∈ rows, ∀ d', d' ≠ d → ¬(w.stage d').Deciding r := fun r mem d' ne =>
      h.sole (held r mem) (meets r mem) ne
    refine h.to rfl (Same.refl w) rfl ?_ (fun r deciding => absurd deciding (idle r)) ?_
    · exact fun r deciding => .inr (others r (deciding.resolve_right not_mem_nil))
    · intro r deciding
      have mem := deciding.resolve_right not_mem_nil
      obtain ⟨row,hrow,pending,-⟩ := all r mem
      refine ⟨held r mem,h.opened hrow pending fun d' => ?_⟩
      by_cases eq : d' = d
      · rw [eq]
        exact idle r
      · exact others r mem d' eq
  · cases step

theorem Sound.mark (h : Sound w) (step : next w (.mark d) = some w') : Sound w' := by
  simp only [next] at step
  split at step
  case h_1 tenant r todo marked hd =>
    split at step <;> cases step
    have placed := h.placed d
    rw [hd] at placed
    have same : ∀ r', r' ∈ todo ∨ r' ∈ r :: marked ↔ r' ∈ r :: todo ∨ r' ∈ marked := by
      intro r'
      simp only [mem_cons]
      tauto
    refine h.on rfl (fun _ => ⟨rfl,rfl,rfl,rfl⟩) rfl (fun r' => ?_) fun r' mem =>
      placed r' ((same r').mp mem)
    rw [hd]
    exact same r'
  · cases step

theorem Sound.step {act : Act} (h : Sound w) (meets : Meets w act) (step : Step w act w') :
    Sound w' := by
  unfold Step at step
  have undecided : ∀ {d : Nat} {stage : Stage}, w.stage d = stage → (∀ r, ¬stage.Deciding r) →
      ∀ r, ¬(w.stage d).Deciding r := fun hd none r => hd ▸ none r
  cases act with simp only [next] at step
  | ingest r row =>
    split at step <;> cases step
    rename_i new
    exact h.ingest new.1 new.2
  | delete e =>
    cases step
    have same : ∀ r, Same w {w with entities := w.entities.filter (· ≠ e)} r := fun _ =>
      ⟨rfl,rfl,rfl,rfl⟩
    exact ⟨h.alone,fun d => (h.placed d).frame (.of_same same) (fun _ held => held) fun r _ => same r,
      fun r => ⟨(h.settled r).absent,(h.settled r).pending,(h.settled r).final⟩⟩
  | read d r reject =>
    split at step
    case h_1 row hd hrow =>
      have idle := undecided hd fun _ => id
      split at step
      all_goals
        cases step
        exact h.to rfl (Same.refl w) rfl (fun _ none => none.elim)
          (fun r deciding => absurd deciding (idle r)) trivial
    · cases step
  | lockReviewQueue d job =>
    split at step
    case h_1 r r' hd =>
      split at step
      case h_1 row hrow =>
        split at step <;> cases step
        rename_i free
        exact h.lock free.2.2 (undecided hd fun _ => id) (holds_locked hrow)
      · cases step
    case h_2 r hd =>
      split at step
      case h_1 row hrow =>
        split at step <;> cases step
        rename_i free
        exact h.lock free (undecided hd fun _ => id) (holds_locked hrow)
      · cases step
    case h_3 tenant hd =>
      split at step <;> cases step
      rename_i free
      exact h.lock free (undecided hd fun _ => id) (update_self _ _ _)
    · cases step
  | refresh d found =>
    have placed := h.placed d
    split at step
    case h_1 r hd =>
      rw [hd] at placed
      exact h.recheck placed (meets r (.inl hd)) (undecided hd fun _ => id) step
    case h_2 r hd =>
      rw [hd] at placed
      exact h.recheck placed (meets r (.inr hd)) (undecided hd fun _ => id) step
    · cases step
  | savepoint d =>
    split at step
    case h_1 r copy columns hd =>
      have placed := h.placed d
      rw [hd] at placed
      have same : ∀ r', (Stage.saved r copy columns).Deciding r' ↔ (w.stage d).Deciding r' :=
        fun r' => by
          rw [hd]
          rfl
      split at step
      · cases step
      split at step
      · cases step
        exact h.on rfl (Same.refl w) rfl same placed
      split at step <;> cases step
      exact h.on rfl (fun _ => ⟨rfl,rfl,rfl,rfl⟩) rfl same placed
    · cases step
  | apply d => exact h.apply step
  | commitFirst d => exact h.commitFirst step
  | upsert d payload =>
    split at step
    case h_1 r hd =>
      split at step
      case h_1 row e creates finds hrow upserted =>
        split at step <;> cases step
        obtain ⟨single,known⟩ := upsert_known upserted
        exact h.to rfl (fun _ => ⟨rfl,rfl,rfl,rfl⟩) rfl (fun _ none => none.elim)
          (fun r deciding => absurd deciding (undecided hd (fun _ => id) r))
          ⟨rfl,single,e,rfl,known⟩
      · cases step
    · cases step
  | write d => exact h.write meets step
  | commit d =>
    split at step <;> cases step
    rename_i r decision underLock hd
    have placed := h.placed d
    rw [hd] at placed
    refine h.decide (fun r' => ?_) fun r' mem => mem_singleton.mp mem ▸ placed.2
    rw [hd,mem_singleton]
    exact eq_comm
  | giveUp d keep => exact h.giveUp step
  | scan d rows => exact h.scan meets step
  | mark d => exact h.mark step
  | commitMarks d =>
    split at step <;> cases step
    rename_i tenant marked hd
    have placed := h.placed d
    rw [hd] at placed
    refine h.decide (fun r => ?_) fun r mem => (placed r (.inr mem)).2.unlinked nofun rfl
    rw [hd]
    exact or_iff_right not_mem_nil

theorem sound_start : Sound {} where
  alone := fun _ _ _ deciding => by cases deciding
  placed := fun _ => trivial
  settled := fun _ => ⟨fun _ => ⟨rfl,rfl⟩,by simp,by simp⟩

theorem Sound.created (h : Sound w) (r : Nat) :
    ((w.created r).filter Entity.isHardware).length ≤ 1 := by
  cases hrow : w.rows r with
  | none =>
    rw [((h.settled r).absent hrow).2]
    exact Nat.zero_le 1
  | some row =>
    by_cases pending : row.status = .pending
    · by_cases nobody : ∀ d, ¬(w.stage d).Deciding r
      · rw [((h.settled r).pending row hrow pending).2 nobody]
        exact Nat.zero_le 1
      · obtain ⟨d,deciding⟩ := not_forall_not.mp nobody
        exact (h.placed d).single deciding
    · exact ((h.settled r).final row hrow pending).2.1

/-- Where decisions are kept apart, every result has one outcome, and what was created for it and
what it points at agree with that outcome. -/
theorem outcomes_exclusive (acts : List Act) (w : World) (run : Run (Guarded Step Meets) {} acts w) :
    Exclusive w := by
  have sound : Sound w := run.invariant (fun _ _ _ h step => h.step step.1 step.2) sound_start
  refine ⟨fun r => ?_,sound.created,fun r row hrow takes => ?_,fun r row hrow rejected => ?_⟩
  · cases hrow : w.rows r with
    | none =>
      rw [((sound.settled r).absent hrow).1]
      exact Nat.zero_le 1
    | some row =>
      by_cases pending : row.status = .pending
      · rw [((sound.settled r).pending row hrow pending).1]
        exact Nat.zero_le 1
      · rw [((sound.settled r).final row hrow pending).1]
        exact Nat.le_refl 1
  · have final : row.status ≠ .pending := fun pending => by
      rw [pending] at takes
      cases takes
    exact ((sound.settled r).final row hrow final).2.2.1 takes
  · refine ((sound.settled r).final row hrow ?_).2.2.2 ?_
    · rw [rejected]
      nofun
    · rw [rejected]
      rfl

end Proofs

theorem Step.of {w w' : World} (act : Act) (h : next w act = some w') : Step w act w' := h

def newHost : ScanResult := {tenant := none, source := .other}

theorem accepted_and_rejected_exclusive : ∃ acts w,
    Run (Guarded Step Meets) {} acts w ∧
    w.rows 0 = some {newHost with entity := some (.hardware 0), status := .accepted} ∧
    w.rows 1 = some {newHost with status := .rejected} ∧ w.created 0 = [.hardware 0] ∧
    Exclusive w := by
  have start : Run (Guarded Step Meets) {} [] {} := .nil _
  have queued := (start.also (.of (.ingest 0 newHost) rfl) trivial).also (.of (.ingest 1 newHost) rfl)
    trivial
  have read := (queued.also (.of (.read 0 0 false) rfl) trivial).also (.of (.read 1 1 true) rfl)
    trivial
  have checked := (read.also (.of (.lockReviewQueue 0 (.accept 0)) rfl) trivial).also
    (.of (.refresh 0 none) rfl) (fun r _ d' free => by
      match d' with
      | 0 | 1 | _+2 => cases free)
  have rejected := checked.also (.of (.write 1) rfl) (fun r here => by
    obtain rfl : 1 = r := by
      rcases here with h | ⟨_,h⟩ <;> cases h
      rfl
    refine ⟨⟨newHost,rfl,rfl⟩,fun d' ne deciding => ?_⟩
    match d' with
    | 0 => cases deciding
    | 1 => exact ne rfl
    | _+2 => cases deciding)
  have ready := ((rejected.also (.of (.savepoint 0) rfl) trivial).also (.of (.apply 0) rfl)
    trivial).also (.of (.commit 1) rfl) trivial
  have accepted := (ready.also (.of (.write 0) rfl) (fun r here => by
    rcases here with h | ⟨_,h⟩ <;> cases h)).also (.of (.commit 0) rfl) trivial
  exact ⟨_,_,accepted,rfl,rfl,rfl,outcomes_exclusive _ _ accepted⟩

/-- A reject that has read the result as pending overwrites the accept that came in between: the
hardware is there and the result rejected. -/
theorem accepted_then_rejected :
    ¬∀ (acts : List Act) (w : World), Run Step {} acts w → Exclusive w := by
  intro exclusive
  have start : Run Step {} [] {} := .nil _
  have read := ((start.snoc (.of (.ingest 0 newHost) rfl)).snoc (.of (.read 0 0 true) rfl)).snoc
    (.of (.read 1 0 false) rfl)
  have checked := (read.snoc (.of (.lockReviewQueue 1 (.accept 0)) rfl)).snoc
    (.of (.refresh 1 none) rfl)
  have accepted := (((checked.snoc (.of (.savepoint 1) rfl)).snoc (.of (.apply 1) rfl)).snoc
    (.of (.write 1) rfl)).snoc (.of (.commit 1) rfl)
  have rejected := (accepted.snoc (.of (.write 0) rfl)).snoc (.of (.commit 0) rfl)
  have none := (exclusive _ _ rejected).rejected 0
    {newHost with entity := some (.hardware 0), status := .rejected} rfl rfl
  cases none

end CircuitBreaker.ReviewQueue
