import CircuitBreaker.OperationJournal

/-! What `validate_document` accepts of a journal: the schema's conditions on the
record fields, safe integers, a bounded text and the journal rules. -/

namespace CircuitBreaker.Lifecycle
open TextPattern List

/-! Validity of the nodes the schemas are built from. -/

@[simp] theorem valid_leaf (k : Keywords) (v : Json) : (leaf k).valid v = k.accepts v := by
  simp [leaf,Node.valid,validItems,validNot,fitsClosed]

variable {properties : List (String × Node)}

variable {v : Json} {n : Node} {f : α → Json} {x : Option α} {c : Checkpoint} {d m b : Nat}
  {r : Pattern}

theorem validProperties_iff : validProperties properties v = true ↔
      ∀ p ∈ properties, ∀ x, v.get p.1 = some x → p.2.valid x = true := by
  induction properties with
  | nil => simp [validProperties]
  | cons p rest ih =>
    obtain ⟨key,sub⟩ := p
    simp only [validProperties,Bool.and_eq_true,ih,mem_cons,forall_eq_or_imp]
    refine and_congr_left fun _ => ?_
    cases v.get key <;> simp

variable {members : List (String × Json)}

theorem valid_closedObject {types : List JsonType} {required : List String} (ht : .object ∈ types) :
    (closedObject types required properties).valid (.obj members) = true ↔
      (∀ p ∈ properties, ∀ x, members.lookup p.1 = some x → p.2.valid x = true) ∧
      (∀ key ∈ required, (members.lookup key).isSome) ∧
      ∀ m ∈ members, m.1 ∈ properties.map (·.1) := by
  have accepts : ({ types := types } : Keywords).accepts (.obj members) = true := by
    simp [Keywords.accepts,Json.typeOf,ht]
  simp [closedObject,Node.valid,validItems,validNot,fitsClosed,accepts,validProperties_iff,
    Json.get,keysFit]

theorem valid_closedObject_null {types : List JsonType} {required : List String} (ht : .null ∈ types) :
    (closedObject types required properties).valid (.lit .null) = true := by
  simp [closedObject,Node.valid,validItems,validNot,fitsClosed,Keywords.accepts,Json.typeOf,ht]

theorem valid_listOf {k : Keywords} {items : List Json} (hc : k.const = none)
    (he : k.enum = none) (hu : k.uniqueItems = false) :
    (listOf k n).valid (.arr items) = true ↔
      k.minItems ≤ items.length ∧ (∀ m, k.maxItems = some m → items.length ≤ m) ∧
      ∀ item ∈ items, n.valid item = true := by
  cases hm : k.maxItems <;>
    simp [listOf,Node.valid,validItems,validNot,fitsClosed,Keywords.accepts,Json.typeOf,
      Keywords.acceptsArray,hc,he,hu,hm,and_assoc]

theorem valid_nullable :
    (nullable n).valid v = true ↔ v = .lit .null ∨ n.valid v = true := by
  have null : ({ types := [.null] } : Keywords).accepts v = true ↔ v = .lit .null := by
    cases v with
    | lit s => cases s <;> simp [Keywords.accepts,Json.typeOf,Keywords.acceptsText,Keywords.acceptsInteger]
    | arr items | obj members => simp [Keywords.accepts,Json.typeOf]
  have words : ({} : Keywords).accepts v = true := by
    cases v with
    | lit s => cases s <;> simp [Keywords.accepts,Keywords.acceptsText,Keywords.acceptsInteger]
    | arr items => simp [Keywords.accepts,Keywords.acceptsArray]
    | obj members => simp [Keywords.accepts]
  simp only [nullable,anyOf,Node.valid,validItems,validNot,fitsClosed,words,validBranches]
  simp [null]

theorem valid_orNull {x : Option String} :
    (nullable n).valid (Json.orNull .str x) = true ↔ ∀ s, x = some s → n.valid (.str s) = true := by
  cases x <;> simp [valid_nullable,Json.orNull,Json.str]

theorem valid_integerFrom {least : Int} {n : Int} :
    (integerFrom least).valid (.int n) = true ↔ least ≤ n := by
  simp [integerFrom,Keywords.accepts,Keywords.acceptsInteger,Json.int,Json.typeOf]

/-! Every name of an enumeration is one of its options. -/

@[simp] theorem valid_state (s : State) : stateNode.valid (.str s.name) = true := by
  cases s <;> decide
@[simp] theorem valid_kind (k : Kind) : kindNode.valid (.str k.name) = true := by
  cases k <;> decide
@[simp] theorem valid_action (a : Action) : journalActionNode.valid (.str a.name) = true := by
  cases a <;> decide
@[simp] theorem valid_adapter (a : Adapter) : adapterNode.valid (.str a.name) = true := by
  cases a <;> decide
@[simp] theorem valid_cause (c : Cause) : (enumOf ["interrupted","abandoned","apply_failed",
    "check_failed","recovery_failed"]).valid (.str c.name) = true := by
  cases c <;> decide
@[simp] theorem valid_outcome (o : Outcome) : (enumOf outcomeNames).valid (.str o.name) = true := by
  cases o <;> decide
@[simp] theorem valid_evidenceCheck (e : EvidenceCheck) : (enumOf ["signature","provenance",
    "digest","archive","compatibility","recovery_point","health","version","schema",
    "identity"]).valid (.str e.name) = true := by
  cases e <;> decide
@[simp] theorem valid_evidenceResult (e : EvidenceResult) :
    (enumOf ["passed","failed","skipped"]).valid (.str e.name) = true := by
  cases e <;> decide
@[simp] theorem valid_exitName (e : ExitName) : exitNameNode.valid (.str e.name) = true := by
  cases e <;> decide

structure Checkpoint.Conforms (c : Checkpoint) : Prop where
  sequence : 1 ≤ c.sequence
  time : timestampNode.valid (.str c.time) = true
  step : ∀ s, c.step = some s → stepNode.valid (.str s) = true
  error : ∀ e, c.error = some e → briefTextNode.valid (.str e.reason) = true

theorem valid_journalError {e : JournalError} :
    journalErrorNode.valid e.toJson = true ↔ briefTextNode.valid (.str e.reason) = true := by
  rw [journalErrorNode,JournalError.toJson,valid_closedObject (by simp)]
  simp [lookup_cons]

variable {α : Type} {key : String}

theorem lookup_append (l m : List (String × α)) :
    (l++m).lookup key = (l.lookup key).or (m.lookup key) := by
  induction l with
  | nil => simp
  | cons p l ih =>
    obtain ⟨k,x⟩ := p
    cases h : key == k <;> simp [lookup_cons,h,ih]

theorem lookup_member {k : String} :
    (Json.member k f x).lookup key = if key = k then x.map f else none := by
  cases x with
  | none => simp [Json.member]
  | some a =>
    by_cases h : key = k
    · simp [Json.member,h]
    · have : (key == k) = false := by simpa using h
      simp [Json.member,lookup_cons,h,this]

theorem mem_member {m : String × Json} :
    m ∈ Json.member key f x ↔ ∃ a, x = some a ∧ m = (key,f a) := by
  cases x <;> simp [Json.member]

theorem valid_checkpoint :
    checkpointNode.valid c.toJson = true ↔ c.Conforms := by
  rw [checkpointNode,Checkpoint.toJson,valid_closedObject (by simp)]
  have keys : ∀ m ∈ Json.member "step" .str c.step ++
      Json.member "cause" (fun x => .str x.name) c.cause ++
      Json.member "checkpoint" (fun x => .str x.name) c.checkpoint ++
      Json.member "outcome" (fun x => .str x.name) c.outcome ++
      Json.member "error" JournalError.toJson c.error,
      m.1 ∈ ["sequence","state","at","step","cause","checkpoint","outcome","error"] := by
    simp only [mem_append,mem_member]
    rintro m ((((⟨a,-,rfl⟩|⟨a,-,rfl⟩)|⟨a,-,rfl⟩)|⟨a,-,rfl⟩)|⟨a,-,rfl⟩) <;> simp
  constructor
  · rintro ⟨h,-,-⟩
    simp [lookup_append,lookup_member,lookup_cons,valid_integerFrom,valid_journalError] at h
    exact ⟨by omega,h.2.1,h.2.2.1,h.2.2.2⟩
  · rintro ⟨h₁,h₂,h₃,h₄⟩
    refine ⟨?_,by simp [lookup_cons],?_⟩
    · simp [lookup_append,lookup_member,lookup_cons,valid_integerFrom,valid_journalError]
      exact ⟨by omega,h₂,h₃,h₄⟩
    · intro m hm
      simp only [append_assoc,cons_append,nil_append,mem_cons] at hm
      rcases hm with rfl|rfl|rfl|hm
      · simp
      · simp
      · simp
      · exact keys m (by simpa using hm)

def Release.Conforms (r : Release) : Prop :=
  installedVersionNode.valid (.str r.version) = true ∧
    ∀ d, r.artifactDigest = some d → digestNode.valid (.str d) = true

def RecoveryRef.Conforms (r : RecoveryRef) : Prop :=
  operationIdNode.valid (.str r.operationId) = true ∧
    digestNode.valid (.str r.manifestDigest) = true

def Evidence.Conforms (e : Evidence) : Prop :=
  ∀ s, e.detail = some s → briefTextNode.valid (.str s) = true

theorem valid_release {x : Option Release} :
    releaseNode.valid (Json.orNull Release.toJson x) = true ↔ ∀ r, x = some r → r.Conforms := by
  cases x with
  | none => simpa [Json.orNull,releaseNode] using valid_closedObject_null (by simp)
  | some r =>
    rw [Json.orNull,releaseNode,Release.toJson,valid_closedObject (by simp)]
    simp [lookup_cons,Release.Conforms,valid_orNull]

theorem valid_recoveryRef {x : Option RecoveryRef} :
    recoveryRefNode.valid (Json.orNull RecoveryRef.toJson x) = true ↔
      ∀ r, x = some r → r.Conforms := by
  cases x with
  | none => simpa [Json.orNull,recoveryRefNode] using valid_closedObject_null (by simp)
  | some r =>
    rw [Json.orNull,recoveryRefNode,RecoveryRef.toJson,valid_closedObject (by simp)]
    simp [lookup_cons,RecoveryRef.Conforms]

theorem valid_evidence {e : Evidence} : evidenceNode.valid e.toJson = true ↔ e.Conforms := by
  rw [evidenceNode,Evidence.toJson,valid_closedObject (by simp)]
  simp [lookup_cons,Evidence.Conforms,valid_orNull]

structure Journal.Conforms (j : Journal) : Prop where
  operationId : operationIdNode.valid (.str j.operationId) = true
  generation : 1 ≤ j.generation
  planDigest : ∀ d, j.planDigest = some d → digestNode.valid (.str d) = true
  identityDigest : ∀ d, j.identityDigest = some d → digestNode.valid (.str d) = true
  source : ∀ r, j.source = some r → r.Conforms
  target : ∀ r, j.target = some r → r.Conforms
  recovery : ∀ r, j.recovery = some r → r.Conforms
  evidenceCount : j.evidence.length ≤ 16
  evidence : ∀ e ∈ j.evidence, e.Conforms
  startedAt : timestampNode.valid (.str j.startedAt) = true
  updatedAt : timestampNode.valid (.str j.updatedAt) = true
  nonempty : 1 ≤ j.checkpoints.length
  count : j.checkpoints.length ≤ 32
  checkpoints : ∀ c ∈ j.checkpoints, c.Conforms

variable {j : Journal}

theorem valid_journal : journalNode.valid j.toJson = true ↔ j.Conforms := by
  have version : (constNode (.int 1)).valid (.int 1) = true := by decide
  rw [journalNode,Journal.toJson,valid_closedObject (by simp)]
  simp [Journal.members,lookup_cons,valid_orNull,valid_integerFrom,valid_release,valid_recoveryRef,
    valid_listOf,valid_evidence,valid_checkpoint,version]
  constructor
  · rintro ⟨h₁,h₂,h₃,h₄,h₅,h₆,h₇,⟨h₈,h₉⟩,h₁₀,h₁₁,h₁₂,h₁₃,h₁₄⟩
    exact ⟨h₁,by omega,h₃,h₄,h₅,h₆,h₇,h₈,h₉,h₁₀,h₁₁,h₁₂,h₁₃,h₁₄⟩
  · rintro ⟨h₁,h₂,h₃,h₄,h₅,h₆,h₇,h₈,h₉,h₁₀,h₁₁,h₁₂,h₁₃,h₁₄⟩
    exact ⟨h₁,by omega,h₃,h₄,h₅,h₆,h₇,⟨h₈,h₉⟩,h₁₀,h₁₁,h₁₂,h₁₃,h₁₄⟩

/-! The canonical text of an accepted journal. -/

theorem plainMembers_append {l m : List (String × Json)} :
    plainMembers (l++m) d = (plainMembers l d && plainMembers m d) := by
  induction l with
  | nil => simp [plainMembers]
  | cons p l ih =>
    obtain ⟨k,v⟩ := p
    simp [plainMembers,ih,Bool.and_assoc]

theorem plainItems_iff {items : List Json} :
    plainItems items d = true ↔ ∀ v ∈ items, v.plain d = true := by
  induction items with
  | nil => simp [plainItems]
  | cons v vs ih => simp [plainItems,ih]

theorem memberBytes_append (l m : List (String × Json)) :
    memberBytes (l++m) = memberBytes l+memberBytes m := by
  induction l with
  | nil => simp [memberBytes]
  | cons p l ih =>
    obtain ⟨k,v⟩ := p
    simp only [cons_append,memberBytes,ih]
    omega

theorem plain_str (s : String) (d : Nat) : (Json.str s).plain d = decide (d ≤ maxDepth) := by
  simp [Json.str,Json.plain,Scalar.safe]

theorem plain_nat (n d : Nat) : (Json.int n).plain d = (decide (d ≤ maxDepth) && decide ((n : Int) ≤ maxSafe)) := by
  simp [Json.int,Json.plain,Scalar.safe]

theorem plain_orNull
    (hf : ∀ a, (f a).plain d = true) (hd : d ≤ maxDepth) : (Json.orNull f x).plain d = true := by
  cases x <;> simp [Json.orNull,hf,Json.plain,Scalar.safe,hd]

theorem plain_member (hk : keyOk key = true) (hf : ∀ a, (f a).plain d = true) :
    plainMembers (Json.member key f x) d = true := by
  cases x <;> simp [Json.member,plainMembers,hk,hf]

abbrev journalKeys : List String :=
  ["sequence","state","at","step","cause","checkpoint","outcome","error",
    "code","reason","version","artifact_digest","operation_id","manifest_digest","check","result",
    "detail","schema_version","kind","action","adapter","generation","plan_digest",
    "identity_digest","source","target","recovery","evidence","started_at","updated_at",
    "checkpoints"]

-- The kernel decodes a literal slowly, so each is first turned into its characters.
theorem keys_ok : ∀ key ∈ journalKeys, keyOk key = true := by
  simp only [journalKeys,forall_mem_cons,keyOk]
  repeat' apply And.intro
  all_goals first | (rw [String.toList_ofList]; decide) | simp

theorem plain_checkpoint :
    c.toJson.plain 2 = true ↔ (c.sequence : Int) ≤ maxSafe := by
  simp [Checkpoint.toJson,Json.plain,plainMembers_append,plainMembers,plain_str,plain_nat,
    plain_member,keys_ok,maxDepth,JournalError.toJson]

theorem plain_text (x : Option String) (hd : d ≤ maxDepth) : (Json.orNull .str x).plain d = true :=
  plain_orNull (fun s => by simp [plain_str,hd]) hd

theorem plain_release (x : Option Release) : (Json.orNull Release.toJson x).plain 1 = true := by
  refine plain_orNull (fun r => ?_) (by decide)
  have digest := plain_text r.artifactDigest (d := 2) (by decide)
  simp [Release.toJson,Json.plain,plainMembers,plain_str,keys_ok,maxDepth,digest]

theorem plain_recoveryRef (x : Option RecoveryRef) :
    (Json.orNull RecoveryRef.toJson x).plain 1 = true := by
  refine plain_orNull (fun r => ?_) (by decide)
  simp [RecoveryRef.toJson,Json.plain,plainMembers,plain_str,keys_ok,maxDepth]

theorem plain_evidence (e : Evidence) : e.toJson.plain 2 = true := by
  have detail := plain_text e.detail (d := 3) (by decide)
  simp [Evidence.toJson,Json.plain,plainMembers,plain_str,keys_ok,maxDepth,detail]

theorem plain_journal : j.toJson.plain 0 = true ↔
    (j.generation : Int) ≤ maxSafe ∧ ∀ c ∈ j.checkpoints, (c.sequence : Int) ≤ maxSafe := by
  have version : (Json.int 1).plain 1 = true := by decide
  have digests := fun x => plain_text x (d := 1) (by decide)
  simp [Journal.toJson,Journal.members,Json.plain,plainMembers,plain_str,plain_nat,keys_ok,maxDepth,digests,
    plain_release,plain_recoveryRef,plain_evidence,plainItems_iff,plain_checkpoint,version]

/-! How long that text can be. -/

def Soft (c : Char) : Prop := 32 ≤ c.toNat ∨ c.toNat = 9 ∨ c.toNat = 10

theorem utf8Size_le (c : Char) : c.utf8Size ≤ 4 := by
  simp only [Char.utf8Size]
  split
  · omega
  · split
    · omega
    · split <;> omega

theorem utf8Size_list (t : List Char) : utf8Size t ≤ 4*t.length := by
  induction t with
  | nil => simp [utf8Size]
  | cons c t ih =>
    have := utf8Size_le c
    rw [utf8Size_cons,length_cons]
    omega

theorem escape_size {c : Char} (h : Soft c) : utf8Size (escape c) ≤ 4 := by
  have one := utf8Size_le c
  unfold escape
  split
  · decide
  split
  · decide
  split
  · decide
  split
  · decide
  split
  · decide
  split
  · decide
  split
  · decide
  split
  · rename_i h₁ h₂ h₃ h₄ h₅ h₆ h₇ h₈
    have h₉ : c.toNat ≠ 9 := fun e => h₅ (Char.toNat_inj.1 e)
    have h₁₀ : c.toNat ≠ 10 := fun e => h₃ (Char.toNat_inj.1 e)
    rcases h with h|h|h <;> omega
  · simpa [utf8Size] using one

variable {s : String}

theorem quote_size (h : ∀ c ∈ s.toList, Soft c) :
    utf8Size (quote s) ≤ 2+4*s.toList.length := by
  have body : ∀ t : List Char, (∀ c ∈ t, Soft c) → utf8Size (t.flatMap escape) ≤ 4*t.length := by
    intro t
    induction t with
    | nil => simp [utf8Size]
    | cons c t ih =>
      intro h
      have h₁ := escape_size (h c (by simp))
      have h₂ := ih fun d hd => h d (by simp [hd])
      rw [flatMap_cons,utf8Size_append,length_cons]
      omega
  have := body _ h
  rw [quote,utf8Size_brackets _ _ _ (by decide) (by decide)]
  omega

def CharClass.soft (k : CharClass) : Bool :=
  (List.range 32).all fun n => n = 9 || n = 10 ||
    !((k.ranges.any fun r => r.1 ≤ n && n ≤ r.2) != k.negated)

theorem soft_of_class {k : CharClass} {c : Char} (hk : CharClass.soft k = true) (hc : k.has c = true) :
    Soft c := by
  by_cases h : 32 ≤ c.toNat
  · exact .inl h
  · simp only [CharClass.soft,all_eq_true,mem_range] at hk
    have := hk c.toNat (by omega)
    simp only [CharClass.has] at hc
    simp only [hc,Bool.or_eq_true,decide_eq_true_eq] at this
    exact .inr (by simpa using this)

theorem valid_search {k : Keywords} {p : Shape} (hp : k.pattern = some p)
    (hv : (leaf k).valid (.str s) = true) : p.pattern.search s.toList = true := by
  rw [valid_leaf] at hv
  simp only [Keywords.accepts,Json.str,Keywords.acceptsText,hp,Option.all_some,
    Bool.and_eq_true] at hv
  exact hv.2.1.2

theorem whole_size (h : r.whole.search s.toList = true)
    (hr : r.classes.all CharClass.soft = true) (hm : r.longest = some m) :
    utf8Size (quote s) ≤ 2+4*m := by
  obtain ⟨drawn,short⟩ := whole_reads h
  have hq := quote_size fun c hc => by
    obtain ⟨k,hk,hc⟩ := drawn c hc
    exact soft_of_class (all_eq_true.1 hr k hk) hc
  have := short m hm
  omega

theorem many_size {k : CharClass}
    (h : (many (.cls k)).whole.search s.toList = true) (hk : CharClass.soft k = true)
    (hm : s.toList.length ≤ m) : utf8Size (quote s) ≤ 2+4*m := by
  obtain ⟨drawn,-⟩ := whole_reads h
  have hq := quote_size fun c hc => by
    obtain ⟨k',hk',hc⟩ := drawn c hc
    rw [many,Pattern.classes,Pattern.classes,mem_singleton] at hk'
    exact soft_of_class hk (hk' ▸ hc)
  omega

theorem patterns_bounded : [(operationIdPattern,21),(digestPattern,71),(timestampPattern,27),
    (stepPattern,64)].all (fun p => p.1.classes.all CharClass.soft && p.1.longest == some p.2) ∧
    CharClass.soft ⟨controls,true⟩ = true ∧ CharClass.soft ⟨textControls,true⟩ = true := by
  decide

theorem bounded_size (h : r.whole.search s.toList = true)
    (hr : (r,m) ∈ [(operationIdPattern,21),(digestPattern,71),(timestampPattern,27),
      (stepPattern,64)]) : (Json.str s).bytes ≤ 2+4*m := by
  have := all_eq_true.1 patterns_bounded.1 (r,m) hr
  simp only [Bool.and_eq_true,beq_iff_eq] at this
  exact whole_size h this.1 this.2

theorem operationId_size (h : operationIdNode.valid (.str s) = true) : (Json.str s).bytes ≤ 86 :=
  bounded_size (m := 21) (valid_search rfl h) (by simp)

theorem digest_size (h : digestNode.valid (.str s) = true) : (Json.str s).bytes ≤ 286 :=
  bounded_size (m := 71) (valid_search rfl h) (by simp)

theorem timestamp_size (h : timestampNode.valid (.str s) = true) : (Json.str s).bytes ≤ 110 :=
  bounded_size (m := 27) (valid_search rfl h) (by simp)

theorem step_size (h : stepNode.valid (.str s) = true) : (Json.str s).bytes ≤ 258 :=
  bounded_size (m := 64) (valid_search rfl h) (by simp)

theorem installedVersion_size (h : installedVersionNode.valid (.str s) = true) :
    (Json.str s).bytes ≤ 258 := by
  refine many_size (valid_search rfl h) patterns_bounded.2.1 (m := 64) ?_
  rw [installedVersionNode,valid_leaf] at h
  simp only [Keywords.accepts,Json.str,Keywords.acceptsText,Option.all_some,Bool.and_eq_true,
    decide_eq_true_eq] at h
  exact h.2.1.1.2

theorem briefText_size (h : briefTextNode.valid (.str s) = true) :
    (Json.str s).bytes ≤ 1026 := by
  simp only [briefTextNode,textNode,Node.valid,Keywords.accepts,Json.str,Keywords.acceptsText,
    Option.all_some,Bool.and_eq_true,decide_eq_true_eq] at h
  exact many_size h.1.1.1.1.1.2.1.2 patterns_bounded.2.2 (m := 256) h.1.1.1.1.1.2.1.1.2

theorem nat_size {n : Nat} (h : (n : Int) ≤ maxSafe) : (Json.int n).bytes ≤ 64 := by
  have digits := (Nat.length_repr_le_iff (n := n) (k := 16) (by omega)).2
    (by simp [maxSafe] at h; omega)
  have size := utf8Size_list n.repr.toList
  rw [String.length_toList] at size
  have text : (Json.int n).bytes = utf8Size n.repr.toList := rfl
  omega


theorem orNull_size (hb : 4 ≤ b)
    (h : ∀ a, x = some a → (f a).bytes ≤ b) : (Json.orNull f x).bytes ≤ b := by
  cases x with
  | none => exact hb
  | some a => exact h a rfl

theorem key_size : ∀ key ∈ journalKeys, utf8Size (quote key) ≤ 17 := by
  simp only [journalKeys,forall_mem_cons,quote]
  repeat' apply And.intro
  all_goals first | (rw [String.toList_ofList]; decide) | simp

theorem nil_size : memberBytes [] ≤ 0 := le_refl 0

theorem cons_size {k : String} {rest : List (String × Json)} {r : Nat}
    (hk : k ∈ journalKeys) (hv : v.bytes ≤ b) (hr : memberBytes rest ≤ r) :
    memberBytes ((k,v)::rest) ≤ b+19+r := by
  have := key_size k hk
  rw [memberBytes]
  omega

theorem member_size (hk : key ∈ journalKeys) (h : ∀ a, x = some a → (f a).bytes ≤ b) :
    memberBytes (Json.member key f x) ≤ b+19 := by
  cases x with
  | none => exact Nat.zero_le _
  | some a => exact cons_size hk (h a rfl) nil_size

def journalNames : List String :=
  ["planned","staged","verified","recovery_saved","applying","checking","committed","recovering",
    "recovered","recovery_required","interrupted","abandoned","apply_failed","check_failed",
    "recovery_failed","refused","manual","USAGE","UNSUPPORTED","NETWORK","TRUST","PERMISSION",
    "PREFLIGHT","RECOVERED","MANUAL","LOCKED","INTERRUPTED","transaction","legacy","install",
    "update","downgrade","rollback","recover","uninstall","restore","migrate","backup",
    "vault_recover","restart","native","mono","package","proxmox","signature","provenance",
    "digest","archive","compatibility","recovery_point","health","version","schema","identity",
    "passed","failed","skipped"]

theorem name_size : ∀ name ∈ journalNames, (Json.str name).bytes ≤ 20 := by
  simp only [journalNames,forall_mem_cons,Json.str,Json.bytes,Scalar.text,quote]
  repeat' apply And.intro
  all_goals first | (rw [String.toList_ofList]; decide) | simp

theorem state_size (s : State) : (Json.str s.name).bytes ≤ 20 :=
  name_size _ (by cases s <;> decide)
theorem cause_size (c : Cause) : (Json.str c.name).bytes ≤ 20 :=
  name_size _ (by cases c <;> decide)
theorem outcome_size (o : Outcome) : (Json.str o.name).bytes ≤ 20 :=
  name_size _ (by cases o <;> decide)
theorem exitName_size (e : ExitName) : (Json.str e.name).bytes ≤ 20 :=
  name_size _ (by cases e <;> decide)
theorem kind_size (k : Kind) : (Json.str k.name).bytes ≤ 20 :=
  name_size _ (by cases k <;> decide)
theorem action_size (a : Action) : (Json.str a.name).bytes ≤ 20 :=
  name_size _ (by cases a <;> decide)
theorem adapter_size (a : Adapter) : (Json.str a.name).bytes ≤ 20 :=
  name_size _ (by cases a <;> decide)
theorem evidenceCheck_size (e : EvidenceCheck) : (Json.str e.name).bytes ≤ 20 :=
  name_size _ (by cases e <;> decide)
theorem evidenceResult_size (e : EvidenceResult) : (Json.str e.name).bytes ≤ 20 :=
  name_size _ (by cases e <;> decide)

theorem obj_size (h : memberBytes members ≤ b) :
    (Json.obj members).bytes ≤ 2+b := by
  rw [Json.bytes]
  omega

theorem append_size {l m : List (String × Json)} {a : Nat} (hl : memberBytes l ≤ a)
    (hm : memberBytes m ≤ b) : memberBytes (l++m) ≤ a+b := by
  rw [memberBytes_append]
  omega

theorem journalError_size {e : JournalError} (h : briefTextNode.valid (.str e.reason) = true) :
    e.toJson.bytes ≤ 1086 :=
  obj_size (cons_size (b := 20) (r := 1045) (by decide) (exitName_size e.code)
    (cons_size (b := 1026) (by decide) (briefText_size h) nil_size))

theorem checkpoint_size (h : c.Conforms) (hs : (c.sequence : Int) ≤ maxSafe) :
    c.toJson.bytes ≤ 1752 := by
  have always : memberBytes [("sequence",.int c.sequence),("state",.str c.state.name),
      ("at",.str c.time)] ≤ 251 :=
    cons_size (b := 64) (r := 168) (by decide) (nat_size hs)
      (cons_size (b := 20) (r := 129) (by decide) (state_size c.state)
        (cons_size (by decide) (timestamp_size h.time) nil_size))
  have step : memberBytes (Json.member "step" .str c.step) ≤ 277 :=
    member_size (by decide) fun s hs => step_size (h.step s hs)
  have cause : memberBytes (Json.member "cause" (fun x => .str x.name) c.cause) ≤ 39 :=
    member_size (by decide) fun x _ => cause_size x
  have checkpoint : memberBytes (Json.member "checkpoint" (fun x => .str x.name) c.checkpoint) ≤ 39 :=
    member_size (by decide) fun x _ => state_size x
  have outcome : memberBytes (Json.member "outcome" (fun x => .str x.name) c.outcome) ≤ 39 :=
    member_size (by decide) fun x _ => outcome_size x
  have error : memberBytes (Json.member "error" JournalError.toJson c.error) ≤ 1105 :=
    member_size (by decide) fun e he => journalError_size (h.error e he)
  exact obj_size (append_size (append_size (append_size (append_size (append_size always step)
    cause) checkpoint) outcome) error)

theorem evidence_size {e : Evidence} (h : e.Conforms) : e.toJson.bytes ≤ 1130 := by
  have members := cons_size (k := "check") (by decide) (evidenceCheck_size e.check)
    (cons_size (k := "result") (by decide) (evidenceResult_size e.result)
      (cons_size (k := "detail") (by decide)
        (orNull_size (x := e.detail) (f := Json.str) (by omega) fun s hs => briefText_size (h s hs))
        nil_size))
  rw [Evidence.toJson,Json.bytes]
  omega

theorem release_size {r : Release} (h : r.Conforms) : r.toJson.bytes ≤ 590 := by
  have members := cons_size (k := "version") (v := .str r.version) (by decide)
    (installedVersion_size h.1) (cons_size (k := "artifact_digest") (by decide)
      (orNull_size (x := r.artifactDigest) (f := Json.str) (by omega)
        fun d hd => digest_size (h.2 d hd)) nil_size)
  rw [Release.toJson,Json.bytes]
  omega

theorem recoveryRef_size {r : RecoveryRef} (h : r.Conforms) : r.toJson.bytes ≤ 420 := by
  have members := cons_size (k := "operation_id") (v := .str r.operationId) (by decide)
    (operationId_size h.1) (cons_size (k := "manifest_digest") (v := .str r.manifestDigest)
      (by decide) (digest_size h.2) nil_size)
  rw [RecoveryRef.toJson,Json.bytes]
  omega

theorem items_size {f : α → Json} {b : Nat} : ∀ {l : List α},
    (∀ a ∈ l, (f a).bytes ≤ b) → itemBytes (l.map f) ≤ (b+1)*l.length
  | [], _ => le_refl 0
  | a::l, h => by
    have head := h a (by simp)
    have tail := items_size (l := l) fun x hx => h x (mem_cons_of_mem a hx)
    rw [map_cons,itemBytes,length_cons,Nat.mul_succ]
    omega

theorem journal_size (h : j.Conforms) (hg : (j.generation : Int) ≤ maxSafe)
    (hs : ∀ c ∈ j.checkpoints, (c.sequence : Int) ≤ maxSafe) (hc : j.checkpoints.length ≤ 23) :
    j.toJson.bytes ≤ 65535 := by
  have digest := fun (x : Option String) (hx : ∀ d, x = some d → digestNode.valid (.str d) = true) =>
    orNull_size (f := Json.str) (by omega) fun d hd => digest_size (hx d hd)
  have evidence : (Json.arr (j.evidence.map Evidence.toJson)).bytes ≤ 2+1131*16 := by
    have := items_size (f := Evidence.toJson) fun e he => evidence_size (h.evidence e he)
    have count := h.evidenceCount
    rw [Json.bytes]
    omega
  have checkpoints : (Json.arr (j.checkpoints.map Checkpoint.toJson)).bytes ≤ 2+1753*23 := by
    have := items_size (f := Checkpoint.toJson) fun c hc => checkpoint_size (h.checkpoints c hc) (hs c hc)
    rw [Json.bytes]
    omega
  have one : (Json.int 1).bytes ≤ 1 := by decide
  have members : memberBytes j.members ≤ 61400 := le_trans (cons_size (by decide) one
    (cons_size (by decide) (operationId_size h.operationId)
    (cons_size (by decide) (kind_size j.kind)
    (cons_size (by decide) (action_size j.action)
    (cons_size (by decide) (adapter_size j.adapter)
    (cons_size (by decide) (nat_size hg)
    (cons_size (by decide) (digest _ h.planDigest)
    (cons_size (by decide) (digest _ h.identityDigest)
    (cons_size (by decide)
      (orNull_size (f := Release.toJson) (by omega) fun r hr => release_size (h.source r hr))
    (cons_size (by decide)
      (orNull_size (f := Release.toJson) (by omega) fun r hr => release_size (h.target r hr))
    (cons_size (by decide)
      (orNull_size (f := RecoveryRef.toJson) (by omega) fun r hr => recoveryRef_size (h.recovery r hr))
    (cons_size (by decide) evidence
    (cons_size (by decide) (timestamp_size h.startedAt)
    (cons_size (by decide) (timestamp_size h.updatedAt)
    (cons_size (by decide) checkpoints nil_size))))))))))))))) (by decide)
  have := obj_size members
  rw [Journal.toJson]
  omega

theorem versionCheck_journal (j : Journal) : versionCheck (.obj j.members) = none := by
  simp [versionCheck,Journal.members,Json.get,Json.int,Json.same,schemaVersion]

structure Journal.Safe (j : Journal) : Prop where
  generation : (j.generation : Int) ≤ maxSafe
  sequences : ∀ c ∈ j.checkpoints, (c.sequence : Int) ≤ maxSafe

theorem sizeCheck_eq_none {kind : DocKind} {size : Nat} :
    sizeCheck kind size = none ↔ size ≤ kind.maxBytes := by
  simp [sizeCheck]

theorem assertValid_eq_none {kind : DocKind}
    {rules : Option ContractError} : assertValid kind (.obj members) rules = none ↔
      ∃ text, canonicalize (.obj members) = .ok text ∧ utf8Size text ≤ kind.maxBytes ∧
        versionCheck (.obj members) = none ∧ kind.schema.valid (.obj members) = true ∧
        rules = none := by
  cases ht : canonicalize (.obj members) with
  | error e => simp [assertValid,ht]
  | ok text =>
    simp only [assertValid,ht,orElse_eq_none,sizeCheck_eq_none,Option.map_eq_none_iff,
      check_eq_none,Except.ok.injEq,exists_eq_left']

theorem validate_sound (h : j.validate = none) :
    j.Conforms ∧ j.Safe ∧ journalRules j = none := by
  obtain ⟨text,ht,-,-,hv,hr⟩ := assertValid_eq_none.1 h
  have plain := plain_journal.1 (canonical_plain ht).1
  exact ⟨valid_journal.1 hv,⟨plain.1,plain.2⟩,hr⟩

theorem validate_complete (hc : j.Conforms) (hs : j.Safe)
    (hl : j.checkpoints.length ≤ 23) (hr : journalRules j = none) : j.validate = none := by
  obtain ⟨text,ht⟩ := plain_canonical "" (plain_journal.2 ⟨hs.generation,hs.sequences⟩)
  have size := (canonical_plain ht).2
  have bound := journal_size hc hs.generation hs.sequences hl
  have fits : utf8Size text ≤ DocKind.journal.maxBytes := by
    show utf8Size text ≤ 65536
    omega
  exact assertValid_eq_none.2 ⟨text,ht,fits,versionCheck_journal j,valid_journal.2 hc,hr⟩

/-! A clock reading is a timestamp. -/

theorem padded_length : ∀ (width n : Nat), (padded width n).length = width
  | 0, _ => rfl
  | width+1, n => by simp [padded,padded_length width]

theorem digit_has {n : Nat} : CharClass.has ⟨digits,false⟩ (Char.ofNat (48+n%10)) = true := by
  have all : ∀ k < 10, CharClass.has ⟨digits,false⟩ (Char.ofNat (48+k)) = true := by decide
  exact all _ (Nat.mod_lt n (by omega))

theorem padded_digits : ∀ {width n : Nat}, ∀ c ∈ padded width n, CharClass.has ⟨digits,false⟩ c = true
  | 0, _ => by simp [padded]
  | width+1, n => by
    simp only [padded,mem_append,mem_singleton]
    rintro c (hc|rfl)
    · exact padded_digits c hc
    · exact digit_has

theorem ends_padded {least width n : Nat} {t : List Char} {b : Bool} (hl : least ≤ width)
    (hw : 0 < width) : (⟨false,t⟩ : Pos) ∈ (between least width digit).ends ⟨b,padded width n++t⟩ := by
  have run := rounds_run (k := ⟨digits,false⟩) (g := true) (b := b) (t := t)
    (w := padded width n) (m := least) (by rw [padded_length]; exact hl) padded_digits
  have ne : (padded width n).isEmpty = false := by
    rw [isEmpty_eq_false_iff_exists_mem]
    exact exists_mem_of_length_pos (by rw [padded_length]; exact hw)
  rw [padded_length,ne,Bool.and_false] at run
  exact run

theorem ends_optional {p q : Pos} (h : q ∈ r.ends p) : q ∈ (optional r).ends p := by
  simp [optional,Pattern.ends,rounds,h]

theorem ends_cat {rs : List Pattern} {p q s : Pos} (h : q ∈ r.ends p)
    (hs : s ∈ (cat rs).ends q) : s ∈ (cat (r::rs)).ends p := by
  simp only [cat,foldr_cons,Pattern.ends,mem_flatMap] at hs ⊢
  exact ⟨q,h,hs⟩

theorem ends_single {c : Char} {t : List Char} {b : Bool} :
    (⟨false,t⟩ : Pos) ∈ (single c).ends ⟨b,c::t⟩ := by
  simp [single,Pattern.ends,Pos.next,CharClass.has]

theorem stamp_pattern (m : Moment) : timestampPattern.whole.search m.stampChars = true := by
  refine search_whole (q := ⟨false,[]⟩) ?_ rfl
  have fraction : (⟨false,['Z']⟩ : Pos) ∈ (optional (cat [single '.',between 1 6 digit])).ends
      ⟨false,'.'::(padded 6 m.micro++['Z'])⟩ := by
    refine ends_optional (ends_cat ends_single (ends_cat (ends_padded (by omega) (by omega)) ?_))
    simp [cat,Pattern.ends]
  refine ends_cat (ends_padded (by omega) (by omega)) (ends_cat ends_single
    (ends_cat (ends_padded (by omega) (by omega)) (ends_cat ends_single
    (ends_cat (ends_padded (by omega) (by omega)) (ends_cat ends_single
    (ends_cat (ends_padded (by omega) (by omega)) (ends_cat ends_single
    (ends_cat (ends_padded (by omega) (by omega)) (ends_cat ends_single
    (ends_cat (ends_padded (by omega) (by omega)) (ends_cat fraction (ends_cat ends_single ?_))))))))))))
  simp [cat,Pattern.ends]

theorem digit_value (n : Nat) : (Char.ofNat (48+n%10)).toNat-48 = n%10 := by
  have all : ∀ k < 10, (Char.ofNat (48+k)).toNat-48 = k := by decide
  exact all _ (Nat.mod_lt n (by omega))

theorem daysIn_le (year month : Nat) : daysIn year month ≤ 31 := by
  have entries : ∀ leap ≤ 29, ∀ d ∈ [31,leap,31,30,31,30,31,31,30,31,30,31], d ≤ 31 := by
    intro leap hl d hd
    simp only [mem_cons,not_mem_nil,or_false] at hd
    omega
  rw [daysIn,getD_eq_getElem?_getD]
  cases hd : ([31,if year%4 = 0 ∧ (year%100 ≠ 0 ∨ year%400 = 0) then 29 else 28,31,30,31,30,31,31,
      30,31,30,31] : List Nat)[month-1]? with
  | none => simp
  | some d => exact entries _ (by split <;> omega) d (mem_of_getElem? hd)

theorem realDate_bounds {year month day : Nat} (h : realDate year month day = true) :
    month ≤ 12 ∧ day ≤ 31 := by
  have := daysIn_le year month
  simp [realDate] at h
  omega

theorem stamp_format (m : Moment) : Format.utcTimestamp.holds m.stampChars = true := by
  have year : digitsAt m.stampChars 0 4 = m.year := by
    have := m.inYear
    simp [digitsAt,Moment.stampChars,padded,digit_value]
    omega
  have real := m.real
  have bounds := realDate_bounds real
  have month : digitsAt m.stampChars 5 7 = m.month := by
    simp [digitsAt,Moment.stampChars,padded,digit_value]
    omega
  have day : digitsAt m.stampChars 8 10 = m.day := by
    simp [digitsAt,Moment.stampChars,padded,digit_value]
    omega
  have hour : digitsAt m.stampChars 11 13 = m.hour := by
    have := m.inHour
    simp [digitsAt,Moment.stampChars,padded,digit_value]
    omega
  have minute : digitsAt m.stampChars 14 16 = m.minute := by
    have := m.inMinute
    simp [digitsAt,Moment.stampChars,padded,digit_value]
    omega
  have second : digitsAt m.stampChars 17 19 = m.second := by
    have := m.inSecond
    simp [digitsAt,Moment.stampChars,padded,digit_value]
    omega
  simp [Format.holds,year,month,day,hour,minute,second,real,m.inHour,m.inMinute,m.inSecond]

theorem stamp_valid (m : Moment) : timestampNode.valid (.str m.stamp) = true := by
  have text : m.stamp.toList = m.stampChars := String.toList_ofList
  rw [timestampNode,valid_leaf]
  simp [Keywords.accepts,Keywords.acceptsText,Json.str,Json.typeOf,text,stamp_pattern,stamp_format]

end CircuitBreaker.Lifecycle
