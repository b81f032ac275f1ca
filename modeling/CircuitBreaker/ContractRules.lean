import CircuitBreaker.OperationJournal

/-! The cross-field rules of the documents that are not journals, over the JSON
value itself: they run once the schema has accepted it. -/

namespace CircuitBreaker.Lifecycle

/-- `v[key]` where it is a text. -/
def Json.textAt (v : Json) (key : String) : String :=
  match v.get key with
  | some (.lit (.str s)) => s
  | _ => ""

/-- `v[key] is None`. -/
def Json.nullAt (v : Json) (key : String) : Bool :=
  match v.get key with
  | some (.lit .null) => true
  | _ => false

/-- `key in v`. -/
def Json.has (v : Json) (key : String) : Bool := (v.get key).isSome

def Json.keys : Json → List String
  | .obj members => members.map Prod.fst
  | _ => []

inductive EventType where
  | phase | progress | checkpoint | diagnostic
  deriving DecidableEq

def EventType.name : EventType → String
  | .phase => "phase"
  | .progress => "progress"
  | .checkpoint => "checkpoint"
  | .diagnostic => "diagnostic"

def EventType.all : List EventType := [.phase,.progress,.checkpoint,.diagnostic]

/-- `x-fields`: the members each type requires. -/
def EventType.required : EventType → List String
  | .phase => ["phase","status"]
  | .progress => ["phase","done","total","unit"]
  | .checkpoint => ["state","generation"]
  | .diagnostic => ["level","message"]

def EventType.optional : EventType → List String
  | .phase => ["duration_ms"]
  | .progress | .checkpoint => []
  | .diagnostic => ["code"]

/-- The first member of `keys` that `bad` holds of, refused at its own path. -/
def firstRefusal (keys : List String) (bad : String → Bool) (reason : String → String) :
    Option ContractError :=
  keys.findSome? fun key => failIf (bad key) ("/" ++ key) (reason key)

def doneExceedsTotal (e : Json) : Bool :=
  match e.get "done", e.get "total" with
  | some (.lit (.int done)), some (.lit (.int total)) => done > total
  | _, _ => false

def eventRulesOf (t : EventType) (e : Json) : Option ContractError :=
  let allowed := eventRequired ++ t.required ++ t.optional
  firstRefusal e.keys (fun key => !allowed.contains key)
    (fun key => key ++ " is not allowed in a " ++ t.name ++ " event") <|>
  firstRefusal t.required (fun key => !e.has key)
    (fun key => key ++ " is required in a " ++ t.name ++ " event") <|>
  failIf (t == .phase && e.has "duration_ms" && ! ["completed","failed"].contains (e.textAt "status"))
    "/duration_ms" "a duration belongs to a completed or failed phase" <|>
  failIf (t == .progress && doneExceedsTotal e) "/done" "done exceeds total" <|>
  failIf (t == .checkpoint && e.nullAt "operation_id") "/operation_id"
    "a checkpoint event names its operation" <|>
  failIf (t == .checkpoint && e.textAt "source" != "native") "/source"
    "checkpoint events come only from the native state utility" <|>
  failIf (e.nullAt "operation_id" && e.textAt "source" != "coordinator") "/operation_id"
    "native events always name their operation"

/-- `_event_rules`; the schema leaves no event of another type. -/
def eventRules (e : Json) : Option ContractError :=
  (EventType.all.find? fun t => t.name == e.textAt "type").bind fun t => eventRulesOf t e

/-- `validate_document("event", e)`. -/
def validateEvent (e : Json) : Option ContractError := assertValid .event e (eventRules e)

end CircuitBreaker.Lifecycle
