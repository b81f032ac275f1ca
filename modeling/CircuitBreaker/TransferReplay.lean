import CircuitBreaker.StepRuns
import CircuitBreaker.InventoryApply

/-! Calls of apply_import that run at the same time (services/inventory_transfer/apply.py), each in a
transaction of its own, and its two ways of answering again. -/

namespace CircuitBreaker.TransferReplay

open StepRuns
open InventoryTransfer

inductive PlanStatus where
  | previewed
  | applying
  | expired
  | completed

structure TransferApplyResult where
  operationId : String
  created : EntityType → Nat
  matched : EntityType → Nat
  relationshipsCreated : Dict RelationType Nat

/-- A row of `inventory_transfer_plans`. -/
structure TransferPlan where
  id : String
  actorId : Nat
  status : PlanStatus
  planDigest : String
  built : BuiltImportPlan
  document : Document
  expiresAt : Int
  result : Option TransferApplyResult := none

inductive OperationState where
  | applying
  | completed

/-- A row of `inventory_transfer_operations`. -/
structure TransferOperation where
  id : String
  planId : String
  actorId : Nat
  idempotencyKey : String
  requestDigest : String
  state : OperationState
  result : Option TransferApplyResult

structure Request where
  planId : String
  expectedDigest : String
  idempotencyKey : String
  actorId : Nat

def Request.text (request : Request) : String := request.planId++":"++request.expectedDigest

def Request.target (request : Request) : String × String := (request.planId,request.expectedDigest)

def Request.slot (request : Request) : Nat × String := (request.actorId,request.idempotencyKey)

def TransferOperation.slot (op : TransferOperation) : Nat × String := (op.actorId,op.idempotencyKey)

inductive ApiError where
  | idempotencyConflict
  | transferBusy
  | notFound
  | previewChanged
  | previewExpired
  | body (error : ApplyError)
  | database

section
variable (sha256 : String → String)

def replayed (operations : List TransferOperation) (request : Request) :
    Except ApiError (Option TransferApplyResult) :=
  match operations.find? (·.slot = request.slot) with
  | none => .ok none
  | some replay =>
    if replay.requestDigest ≠ sha256 request.text then .error .idempotencyConflict
    else
      match replay.state,replay.result with
      | .completed,some result => .ok (some result)
      | _,_ => .error .transferBusy

end

/-- The checks on the plan's row, behind its lock: the plan to apply, or the result it has. -/
def checked (plans : List TransferPlan) (now : Int) (request : Request) :
    Except ApiError (TransferPlan ⊕ TransferApplyResult) :=
  match plans.find? (·.id = request.planId) with
  | none => .error .notFound
  | some preview =>
    if preview.actorId ≠ request.actorId then .error .notFound
    else if preview.planDigest ≠ request.expectedDigest then .error .previewChanged
    -- the status it sets goes with the transaction
    else if preview.expiresAt ≤ now then .error .previewExpired
    else
      match preview.status,preview.result with
      | .completed,some result => .ok (.inr result)
      | .previewed,_ => .ok (.inl preview)
      | _,_ => .error .transferBusy

structure Db where
  plans : List TransferPlan
  operations : List TransferOperation
  rows : List CreatedRow
  links : List CreatedLink

inductive Source where
  | operation
  | plan
  | applied
  deriving DecidableEq

inductive Stage where
  | begun
  | unreplayed
  | locked (plan : TransferPlan)
  | writing (plan : TransferPlan) (operationId : String) (made : TransferResult)
      (left : List CreatedRow)
  | answered (result : TransferApplyResult) (source : Source)
  | raised (error : ApiError)

structure Call where
  request : Request
  stage : Stage

def Stage.held : Stage → Option TransferPlan
  | .locked plan => some plan
  | .writing plan _ _ _ => some plan
  | _ => none

def Stage.inserted : Stage → Prop
  | .writing _ _ _ _ => True
  | _ => False

def Stage.ended : Stage → Prop
  | .answered _ _ => True
  | .raised _ => True
  | _ => False

structure World where
  db : Db
  calls : Nat → Option Call
  /-- the plans whose rows were made and committed; kept for the statements and read by nothing -/
  created : List String

def World.enter (w : World) (i : Nat) (c : Call) : World :=
  { w with calls := Function.update w.calls i (some c) }

section
variable (sha256 : String → String)

def Call.look (c : Call) (operations : List TransferOperation) : Call :=
  match replayed sha256 operations c.request with
  | .error e => { c with stage := .raised e }
  | .ok none => { c with stage := .unreplayed }
  | .ok (some result) => { c with stage := .answered result .operation }

end

def Call.check (c : Call) (plans : List TransferPlan) (now : Int) : Call :=
  match checked plans now c.request with
  | .error e => { c with stage := .raised e }
  | .ok (.inl plan) => { c with stage := .locked plan }
  | .ok (.inr result) => { c with stage := .answered result .plan }

def resultOf (operationId : String) (made : TransferResult) : TransferApplyResult :=
  ⟨operationId,made.created,made.matched,made.relationshipsCreated⟩

def TransferPlan.complete (plan : TransferPlan) (result : TransferApplyResult) : TransferPlan :=
  { plan with
    status := .completed
    result := some result }

def Db.commit (db : Db) (sha256 : String → String) (request : Request) (plan : TransferPlan)
    (operationId : String) (made : TransferResult) : Db where
  plans := db.plans.map fun row =>
    if row.id = plan.id then row.complete (resultOf operationId made) else row
  operations := db.operations++[⟨operationId,plan.id,request.actorId,request.idempotencyKey,
    sha256 request.text,.completed,some (resultOf operationId made)⟩]
  rows := db.rows++made.rows
  links := db.links++made.links

inductive Act where
  | preview (plan : TransferPlan)
  | edit
  | begin (i : Nat) (request : Request)
  | lookup (i : Nat)
  | lock (i : Nat) (now : Int)
  | refuse (i : Nat)
  | insert (i : Nat)
  | flush (i : Nat)
  | complete (i : Nat)
  | fail (i : Nat)

def Act.call? : Act → Option Nat
  | .preview _ => none
  | .edit => none
  | .begin i _ => some i
  | .lookup i => some i
  | .lock i _ => some i
  | .refuse i => some i
  | .insert i => some i
  | .flush i => some i
  | .complete i => some i
  | .fail i => some i

/-- One statement of one call, or what others do. Statements of the fingerprint may see any inventory
between them, and the clock any time; `requests` are the ones that are ever made. -/
inductive Step (sha256 : String → String) (py : Runtime) (requests : Set Request) :
    World → Act → World → Prop where
  /-- `save_preview`: ids and digests are hexadecimal -/
  | preview {w : World} (plan : TransferPlan) : plan.id ∉ w.db.plans.map (·.id) →
      ':' ∉ plan.id.toList → ':' ∉ plan.planDigest.toList →
      plan.status = .previewed → plan.result = none →
      Step sha256 py requests w (.preview plan)
        { w with db := { w.db with plans := w.db.plans++[plan] } }
  | edit {w : World} (rows : List CreatedRow) (links : List CreatedLink) :
      Step sha256 py requests w .edit
        { w with
          db := { w.db with
            rows := rows
            links := links } }
  | begin {w : World} (i : Nat) (request : Request) : w.calls i = none → request ∈ requests →
      Step sha256 py requests w (.begin i request) (w.enter i ⟨request,.begun⟩)
  | lookup {w : World} (i : Nat) (c : Call) : w.calls i = some c → c.stage = .begun →
      Step sha256 py requests w (.lookup i) (w.enter i (c.look sha256 w.db.operations))
  | lock {w : World} (i : Nat) (c : Call) (now : Int) : w.calls i = some c → c.stage = .unreplayed →
      (∀ j d p, w.calls j = some d → d.stage.held = some p → p.id ≠ c.request.planId) →
      Step sha256 py requests w (.lock i now) (w.enter i (c.check w.db.plans now))
  | refuse {w : World} (i : Nat) (c : Call) (plan : TransferPlan) (inv : Inventory)
      (db : Database inv) (e : ApplyError) : w.calls i = some c → c.stage = .locked plan →
      applyImport py inv db plan.built plan.document = .error e →
      Step sha256 py requests w (.refuse i) (w.enter i { c with stage := .raised (.body e) })
  | insert {w : World} (i : Nat) (c : Call) (plan : TransferPlan) (inv : Inventory)
      (db : Database inv) (made : TransferResult) (operationId : String) :
      w.calls i = some c → c.stage = .locked plan →
      applyImport py inv db plan.built plan.document = .ok made →
      (∀ op ∈ w.db.operations, op.slot ≠ c.request.slot) →
      (∀ j d, w.calls j = some d → d.stage.inserted → d.request.slot ≠ c.request.slot) →
      Step sha256 py requests w (.insert i)
        (w.enter i { c with stage := .writing plan operationId made made.rows })
  | flush {w : World} (i : Nat) (c : Call) (plan : TransferPlan) (operationId : String)
      (made : TransferResult) (row : CreatedRow) (left : List CreatedRow) : w.calls i = some c →
      c.stage = .writing plan operationId made (row::left) →
      Step sha256 py requests w (.flush i)
        (w.enter i { c with stage := .writing plan operationId made left })
  | complete {w : World} (i : Nat) (c : Call) (plan : TransferPlan) (operationId : String)
      (made : TransferResult) : w.calls i = some c →
      c.stage = .writing plan operationId made [] →
      Step sha256 py requests w (.complete i)
        (World.enter
          { w with
            db := w.db.commit sha256 c.request plan operationId made
            created := w.created++[plan.id] }
          i { c with stage := .answered (resultOf operationId made) .applied })
  | fail {w : World} (i : Nat) (c : Call) : w.calls i = some c → ¬c.stage.ended →
      Step sha256 py requests w (.fail i) (w.enter i { c with stage := .raised .database })

def start (rows : List CreatedRow) (links : List CreatedLink) : World :=
  ⟨⟨[],[],rows,links⟩,fun _ => none,[]⟩

structure Idempotent (step : World → Act → World → Prop) (w₀ w : World) : Prop where
  once : w.created.Nodup
  same : ∀ i j c d r s a b, w.calls i = some c → w.calls j = some d →
    c.stage = .answered r a → d.stage = .answered s b → c.request.planId = d.request.planId → r = s
  key : ∀ i j c d r s a b, w.calls i = some c → w.calls j = some d →
    c.stage = .answered r a → d.stage = .answered s b → c.request.slot = d.request.slot →
    c.request.target = d.request.target
  raised : ∀ before s act t after i c e, Run step w₀ before s → step s act t → Run step t after w →
    act.call? = some i → w.calls i = some c → c.stage = .raised e → t.db = s.db

/-- A key without an operation row for it has answered another request, from a completed plan. -/
def Unrecorded (w : World) (c : Call) : Prop :=
  ∃ j d r, w.calls j = some d ∧ d.stage = .answered r .plan ∧ d.request.slot = c.request.slot ∧
    d.request.target ≠ c.request.target

/-- Before a call is answered from a completed plan, its key has not been used for another request's
answer, and before one commits, it has not been used for another's from a completed plan. -/
def Meets (sha256 : String → String) (w : World) : Act → Prop
  | .lock i now => ∀ c r, w.calls i = some c → checked w.db.plans now c.request = .ok (.inr r) →
      ¬Unrecorded w c ∧ ∀ op ∈ w.db.operations, op.slot = c.request.slot →
        op.requestDigest = sha256 c.request.text
  | .complete i => ∀ c, w.calls i = some c → ¬Unrecorded w c
  | _ => True

/-! The texts of requests. -/

theorem append_colon {a b a' b' : List Char} (ha : ':' ∉ a) (hb : ':' ∉ b)
    (h : a'++ ':'::b' = a++ ':'::b) : a' = a ∧ b' = b := by
  rcases List.append_eq_append_iff.1 h with ⟨l,rfl,eq⟩ | ⟨l,rfl,eq⟩
  · cases l with
    | nil => exact ⟨(List.append_nil _).symm,(List.cons.inj eq).2⟩
    | cons c l =>
      obtain ⟨rfl,-⟩ := List.cons.inj eq
      exact absurd (List.mem_append_right _ List.mem_cons_self) ha
  · cases l with
    | nil => exact ⟨List.append_nil _,(List.cons.inj eq).2.symm⟩
    | cons c l =>
      obtain ⟨rfl,rfl⟩ := List.cons.inj eq
      exact absurd (List.mem_append_right _ List.mem_cons_self) hb

theorem Request.target_of_text {r r' : Request} (plain : ':' ∉ r.planId.toList)
    (digest : ':' ∉ r.expectedDigest.toList) (h : r'.text = r.text) : r'.target = r.target := by
  have chars : r'.planId.toList++ ':'::r'.expectedDigest.toList =
      r.planId.toList++ ':'::r.expectedDigest.toList := by
    have := congrArg String.toList h
    simpa [Request.text] using this
  obtain ⟨ids,digests⟩ := append_colon plain digest chars
  rw [Request.target,Request.target,String.toList_injective ids,String.toList_injective digests]

end CircuitBreaker.TransferReplay
