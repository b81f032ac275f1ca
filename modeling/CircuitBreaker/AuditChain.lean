import CircuitBreaker.JsonText
import Mathlib.Data.List.Induction
import Mathlib.Data.List.Sort
import Mathlib.Data.Set.Function

/-! The audit log's hash chain (core/audit_chain.py): the payload a row's hash
covers, the walk that verifies a table, and what two tables that both verify have
in common. The hex digest of SHA-256 is the parameter `sha256`. -/

namespace CircuitBreaker.Audit
open JsonText List

def daysIn (year month : Nat) : Nat :=
  if month = 2 then
    if year%4 = 0 ∧ (year%100 ≠ 0 ∨ year%400 = 0) then 29 else 28
  else if month = 4 ∨ month = 6 ∨ month = 9 ∨ month = 11 then 30
  else 31

/-- A UTC time as `datetime` holds it. -/
structure DateTime where
  year : Nat
  month : Nat
  day : Nat
  hour : Nat
  minute : Nat
  second : Nat
  microsecond : Nat
  real : (1 ≤ year ∧ year ≤ 9999) ∧ (1 ≤ month ∧ month ≤ 12) ∧ (1 ≤ day ∧ day ≤ daysIn year month) ∧
    hour < 24 ∧ minute < 60 ∧ second < 60 ∧ microsecond < 1000000

/-- The fields write_log gives a row, in its order; `τ` is what stands for a
time, a datetime in the table and a text in the spool. -/
structure LogFields (τ : Type) where
  timestamp : τ
  createdAtUtc : Option String
  level : Option String
  category : Option String
  action : Option String
  actor : Option String
  actorGravatarHash : Option String
  entityType : Option String
  entityId : Option Int
  oldValue : Option String
  newValue : Option String
  userAgent : Option String
  ipAddress : Option String
  details : Option String
  statusCode : Option Int
  actorId : Option Int
  actorName : Option String
  entityName : Option String
  diff : Option String
  severity : Option String
  sessionId : Option Int
  roleAtTime : Option String

structure Entry where
  fields : LogFields DateTime
  previousHash : Option String
  logHash : Option String

structure Log where
  id : Int
  entry : Entry

inductive Value where
  | str (s : Option String)
  | int (n : Option Int)

/-- `log.x or ""`. -/
def orEmpty (s : Option String) : String := s.getD ""

def canonicalLogPayload (log : LogFields DateTime) (previousHash : Option String) :
    List (String × Value) :=
  [("timestamp",.str (some (orEmpty log.createdAtUtc))),
    ("action",.str (some (orEmpty log.action))),
    ("actor_id",.int log.actorId),
    ("role_at_time",.str log.roleAtTime),
    ("entity_type",.str log.entityType),
    ("entity_id",.int log.entityId),
    ("diff",.str log.diff),
    ("ip_address",.str log.ipAddress),
    ("previous_hash",.str previousHash)]

def Value.write : Value → List Char
  | .str s => nullable quote s
  | .int n => nullable decimal n

def writeMember (m : String × Value) : List Char := quote m.1 ++ ':' :: ' ' :: m.2.write

def writeMembers : List (String × Value) → List Char
  | [] => []
  | [m] => writeMember m
  | m::rest => writeMember m ++ ',' :: ' ' :: writeMembers rest

/-- `json.dumps(d, sort_keys=True)` of a dict of scalars. -/
def dumps (members : List (String × Value)) : String :=
  String.ofList ('\x7b' :: (writeMembers (members.insertionSort fun a b => a.1 ≤ b.1) ++ ['\x7d']))

def payloadText (log : LogFields DateTime) (previousHash : Option String) : String :=
  dumps (canonicalLogPayload log previousHash)

section chain
variable (sha256 : String → String)

def computeLogHash (log : LogFields DateTime) (previousHash : Option String) : String :=
  sha256 (payloadText log previousHash)

structure Report where
  valid : Bool
  firstFailureId : Option Int
  message : String
  checkedCount : Nat

def verifyFrom : Option String → Nat → List Log → Report
  | _,checked,[] =>
      if checked = 0 then ⟨true,none,"No log entries to verify.",0⟩
      else ⟨true,none,"Chain verified (" ++ toString checked ++ " entries).",checked⟩
  | previousHash,checked,log::rest =>
      let expected := computeLogHash sha256 log.entry.fields previousHash
      if log.entry.previousHash ≠ previousHash then
        ⟨false,some log.id,
          "Log id=" ++ toString log.id ++ ": previous_hash mismatch (chain broken).",checked+1⟩
      else if log.entry.logHash ≠ some expected then
        ⟨false,some log.id,
          "Log id=" ++ toString log.id ++ ": log_hash mismatch (entry tampered).",checked+1⟩
      else verifyFrom (some expected) (checked+1) rest

def verifyAuditChain (seed : Option String) (logs : List Log) : Report :=
  verifyFrom sha256 seed 0 logs

end chain

/-! ### The payload determines what it covers -/

/-- Agreement on everything a row's hash covers but its link; a missing timestamp
or action reads as the empty one. -/
structure SameHashed (a b : LogFields DateTime) : Prop where
  timestamp : orEmpty a.createdAtUtc = orEmpty b.createdAtUtc
  action : orEmpty a.action = orEmpty b.action
  actorId : a.actorId = b.actorId
  roleAtTime : a.roleAtTime = b.roleAtTime
  entityType : a.entityType = b.entityType
  entityId : a.entityId = b.entityId
  diff : a.diff = b.diff
  ipAddress : a.ipAddress = b.ipAddress

theorem sorted_payload (log : LogFields DateTime) (previousHash : Option String) :
    (canonicalLogPayload log previousHash).insertionSort (fun a b => a.1 ≤ b.1) =
      [("action",.str (some (orEmpty log.action))),
        ("actor_id",.int log.actorId),
        ("diff",.str log.diff),
        ("entity_id",.int log.entityId),
        ("entity_type",.str log.entityType),
        ("ip_address",.str log.ipAddress),
        ("previous_hash",.str previousHash),
        ("role_at_time",.str log.roleAtTime),
        ("timestamp",.str (some (orEmpty log.createdAtUtc)))] := by
  simp [canonicalLogPayload,List.insertionSort,List.orderedInsert]

theorem str_determines : Determines (nullable quote) :=
  nullable_determines quote_determines quote_start

theorem int_determines : Determines (nullable decimal) :=
  nullable_determines decimal_determines decimal_start

theorem ended_comma (s : List Char) : Ended (','::s) := by simp [Ended]
theorem ended_brace (s : List Char) : Ended ('\x7d'::s) := by simp [Ended]

section peel
variable {α : Type} {write : α → List Char} {k : List Char} {a b : α} {s t : List Char}

theorem peel (h : Determines write)
    (same : k ++ write a ++ ','::s = k ++ write b ++ ','::t) : a = b ∧ s = t := by
  rw [append_assoc,append_assoc] at same
  obtain ⟨value,rest⟩ := h a b _ _ (append_cancel_left same) (ended_comma s) (ended_comma t)
  exact ⟨value,(List.cons.inj rest).2⟩

theorem peel_last (h : Determines write)
    (same : k ++ write a ++ ['\x7d'] = k ++ write b ++ ['\x7d']) : a = b := by
  rw [append_assoc,append_assoc] at same
  exact (h a b _ _ (append_cancel_left same) (ended_brace []) (ended_brace [])).1

end peel

def key (lead : Char) (k : String) : List Char := lead :: (quote k ++ [':',' '])

theorem payloadText_toList (log : LogFields DateTime) (previousHash : Option String) :
    (payloadText log previousHash).toList =
      key '\x7b' "action" ++ nullable quote (some (orEmpty log.action)) ++ ','::
      (key ' ' "actor_id" ++ nullable decimal log.actorId ++ ','::
      (key ' ' "diff" ++ nullable quote log.diff ++ ','::
      (key ' ' "entity_id" ++ nullable decimal log.entityId ++ ','::
      (key ' ' "entity_type" ++ nullable quote log.entityType ++ ','::
      (key ' ' "ip_address" ++ nullable quote log.ipAddress ++ ','::
      (key ' ' "previous_hash" ++ nullable quote previousHash ++ ','::
      (key ' ' "role_at_time" ++ nullable quote log.roleAtTime ++ ','::
      (key ' ' "timestamp" ++ nullable quote (some (orEmpty log.createdAtUtc)) ++ ['\x7d'])))))))) := by
  simp only [payloadText,dumps,sorted_payload,String.toList_ofList,writeMembers,writeMember,
    Value.write,key,append_assoc,cons_append,nil_append]

theorem payloadText_inj {a b : LogFields DateTime} {p q : Option String}
    (h : payloadText a p = payloadText b q) : SameHashed a b ∧ p = q := by
  have text := congrArg String.toList h
  rw [payloadText_toList,payloadText_toList] at text
  obtain ⟨action,text⟩ := peel str_determines text
  obtain ⟨actorId,text⟩ := peel int_determines text
  obtain ⟨diff,text⟩ := peel str_determines text
  obtain ⟨entityId,text⟩ := peel int_determines text
  obtain ⟨entityType,text⟩ := peel str_determines text
  obtain ⟨ipAddress,text⟩ := peel str_determines text
  obtain ⟨previous,text⟩ := peel str_determines text
  obtain ⟨roleAtTime,text⟩ := peel str_determines text
  have timestamp := peel_last str_determines text
  exact ⟨⟨Option.some.inj timestamp,Option.some.inj action,actorId,roleAtTime,entityType,entityId,
    diff,ipAddress⟩,previous⟩

/-! ### Chains -/

def Entry.text (e : Entry) : String := payloadText e.fields e.previousHash

section chain
variable (sha256 : String → String)

/-- A row the walk passes over when it arrives with `previousHash`. -/
def Passes (previousHash : Option String) (e : Entry) : Prop :=
  e.previousHash = previousHash ∧ e.logHash = some (computeLogHash sha256 e.fields previousHash)

def Linked : Option String → List Entry → Prop
  | _,[] => True
  | previousHash,e::rest => Passes sha256 previousHash e ∧ Linked e.logHash rest

end chain

def tip (seed : Option String) (es : List Entry) : Option String := es.foldl (fun _ e => e.logHash) seed

@[simp] theorem tip_nil (seed : Option String) : tip seed [] = seed := rfl

@[simp] theorem tip_cons (seed : Option String) (e : Entry) (es : List Entry) :
    tip seed (e::es) = tip e.logHash es := rfl

@[simp] theorem tip_append (seed : Option String) (a b : List Entry) :
    tip seed (a++b) = tip (tip seed a) b := by simp [tip]

variable {sha256 : String → String}

theorem Passes.logHash {previousHash : Option String} {e : Entry} (h : Passes sha256 previousHash e) :
    e.logHash = some (sha256 e.text) := by
  rw [Entry.text,h.1]
  exact h.2

variable {a b : List Entry} {seed : Option String}

theorem linked_append :
    Linked sha256 seed (a++b) ↔ Linked sha256 seed a ∧ Linked sha256 (tip seed a) b := by
  induction a generalizing seed with
  | nil => simp [Linked]
  | cons e a ih =>
      simp only [cons_append,Linked,tip_cons]
      rw [ih,and_assoc]

variable {logs : List Log}

theorem verifyFrom_valid {n : Nat} :
    (verifyFrom sha256 seed n logs).valid = true ↔ Linked sha256 seed (logs.map Log.entry) := by
  induction logs generalizing seed n with
  | nil =>
      simp only [verifyFrom,map_nil,Linked,iff_true]
      split <;> rfl
  | cons log rest ih =>
      simp only [verifyFrom,map_cons,Linked,Passes]
      by_cases hp : log.entry.previousHash = seed
      · by_cases hl : log.entry.logHash = some (computeLogHash sha256 log.entry.fields seed)
        · simp [hp,hl,ih]
        · simp [hp,hl]
      · simp [hp]

theorem verifyAuditChain_valid :
    (verifyAuditChain sha256 seed logs).valid = true ↔ Linked sha256 seed (logs.map Log.entry) :=
  verifyFrom_valid

theorem verifyFrom_stops (n : Nat) {before : List Log} {log : Log}
    (after : List Log)
    (linked : Linked sha256 seed (before.map Log.entry))
    (bad : ¬Passes sha256 (tip seed (before.map Log.entry)) log.entry) :
    (verifyFrom sha256 seed n (before++log::after)).valid = false ∧
      (verifyFrom sha256 seed n (before++log::after)).firstFailureId = some log.id := by
  induction before generalizing seed n with
  | nil =>
      simp only [map_nil,tip_nil,Passes] at bad
      simp only [nil_append,verifyFrom]
      by_cases hp : log.entry.previousHash = seed
      · have hl : log.entry.logHash ≠ some (computeLogHash sha256 log.entry.fields seed) :=
          fun h => bad ⟨hp,h⟩
        simp [hp,hl]
      · simp [hp]
  | cons first before ih =>
      simp only [map_cons,Linked] at linked
      obtain ⟨⟨hp,hl⟩,rest⟩ := linked
      simp only [map_cons,tip_cons] at bad
      simp only [cons_append,verifyFrom,hp,ne_eq,not_true,if_false,hl]
      rw [hl] at rest bad
      exact ih _ rest bad

def CollisionFree (sha256 : String → String) (es : List Entry) : Prop :=
  Set.InjOn sha256 {text | ∃ e ∈ es, e.text = text}

theorem CollisionFree.mono {es fs : List Entry} (h : CollisionFree sha256 fs)
    (sub : ∀ e ∈ es, e ∈ fs) : CollisionFree sha256 es :=
  Set.InjOn.mono (fun _ h => h.imp fun e he => ⟨sub e he.1,he.2⟩) h

theorem CollisionFree.same {es : List Entry} (h : CollisionFree sha256 es) {a b : Entry}
    {p q : Option String} (ha : a ∈ es) (hb : b ∈ es) (pa : Passes sha256 p a)
    (pb : Passes sha256 q b) (hash : a.logHash = b.logHash) : SameHashed a.fields b.fields ∧ p = q := by
  rw [pa.logHash,pb.logHash] at hash
  have text := h ⟨a,ha,rfl⟩ ⟨b,hb,rfl⟩ (Option.some.inj hash)
  rw [Entry.text,Entry.text,pa.1,pb.1] at text
  exact payloadText_inj text

theorem linked_snoc {e : Entry} :
    Linked sha256 seed (a++[e]) ↔ Linked sha256 seed a ∧ Passes sha256 (tip seed a) e := by
  rw [linked_append]
  simp [Linked]

theorem linked_agree {seed' : Option String}
    (free : CollisionFree sha256 (a++b)) (la : Linked sha256 seed a) (lb : Linked sha256 seed' b)
    (length : a.length = b.length) (hash : tip seed a = tip seed' b) :
    List.Forall₂ (fun x y => SameHashed x.fields y.fields) a b ∧ seed = seed' := by
  induction a using List.reverseRecOn generalizing b with
  | nil =>
      have : b = [] := length_eq_zero_iff.mp length.symm
      subst this
      exact ⟨.nil,hash⟩
  | append_singleton a x ih =>
      have nonempty : b ≠ [] := fun h => by simp [h] at length
      obtain ⟨b,y,rfl⟩ := eq_nil_or_concat' b |>.resolve_left nonempty
      rw [linked_snoc] at la lb
      simp only [tip_append,tip_cons,tip_nil] at hash
      obtain ⟨fields,link⟩ := free.same (by simp) (by simp) la.2 lb.2 hash
      have sub : ∀ e ∈ a++b, e ∈ (a++[x])++(b++[y]) := by
        intro e he
        rcases mem_append.mp he with he | he <;> simp [he]
      obtain ⟨rows,start⟩ := ih (free.mono sub) la.1 lb.1 (by simpa using length) link
      exact ⟨rel_append rows (.cons fields .nil),start⟩

theorem linked_no_repeat (nonempty : b ≠ [])
    (free : CollisionFree sha256 (a++b)) (away : ∀ e ∈ a++b, seed ≠ some (sha256 e.text))
    (linked : Linked sha256 seed (a++b)) : tip seed a ≠ tip seed (a++b) := by
  induction a using List.reverseRecOn generalizing b with
      obtain ⟨b,y,rfl⟩ := eq_nil_or_concat' b |>.resolve_left nonempty
  | nil =>
      rw [nil_append,linked_snoc] at linked
      simp only [nil_append,tip_append,tip_cons,tip_nil]
      rw [linked.2.logHash]
      exact away y (by simp)
  | append_singleton a x ih =>
      intro same
      rw [←append_assoc,linked_snoc] at linked
      obtain ⟨before,last⟩ := linked
      have first := (linked_append.mp before).1
      rw [linked_snoc] at first
      simp only [tip_append,tip_cons,tip_nil] at same
      -- The two rows with one hash were reached from one hash: one step earlier.
      have link := (free.same (a := x) (b := y) (by simp) (by simp) first.2 last same).2
      have sub : ∀ e ∈ a++([x]++b), e ∈ (a++[x])++(b++[y]) := by
        intro e he
        simp only [mem_append] at he ⊢
        tauto
      refine ih (b := [x]++b) (by simp) (free.mono sub) (fun e he => away e (sub e he)) ?_ ?_
      · rwa [←append_assoc]
      · rw [←append_assoc]
        exact link

/-- A change to a table that leaves the stored hashes of later rows as they were,
with the first position it alters. A changed row may carry a recomputed hash of
its own when another row follows it. -/
inductive Tampered : List Entry → List Entry → Nat → Prop where
  | changed (a : List Entry) (e f : Entry) (b : List Entry) :
      ¬SameHashed e.fields f.fields → f.logHash = e.logHash ∨ b ≠ [] →
      Tampered (a++e::b) (a++f::b) a.length
  | deleted (a gone : List Entry) (e : Entry) (b : List Entry) :
      gone ≠ [] → Tampered (a++(gone++e::b)) (a++e::b) a.length
  | inserted (a : List Entry) (f e : Entry) (b : List Entry) :
      Tampered (a++e::b) (a++f::e::b) a.length
  | reordered (a : List Entry) (e f : Entry) (b c : List Entry) :
      e ≠ f → (e::b).Perm (f::c) → Tampered (a++e::b) (a++f::c) a.length

/-- The seed is not the digest of any of the rows: always so for NULL. -/
def Unreturned (sha256 : String → String) (seed : Option String) (es : List Entry) : Prop :=
  ∀ e ∈ es, seed ≠ some (sha256 e.text)

theorem linked_misplaced {m : List Entry} {e : Entry} (nonempty : m ≠ [])
    (free : CollisionFree sha256 (a++(m++e::b))) (away : Unreturned sha256 seed (a++(m++e::b)))
    (linked : Linked sha256 seed (a++(m++e::b))) : ¬Passes sha256 (tip seed a) e := by
  intro passes
  have sub : ∀ x ∈ a++m, x ∈ a++(m++e::b) := by
    intro x hx
    simp only [mem_append] at hx ⊢
    tauto
  rw [←append_assoc] at linked
  obtain ⟨front,rest⟩ := linked_append.mp linked
  have link : e.previousHash = tip seed (a++m) := rest.1.1
  exact linked_no_repeat nonempty (free.mono sub) (fun x hx => away x (sub x hx)) front
    (passes.1.symm.trans link)

theorem tampered_stops {old new : List Entry} {i : Nat}
    (linked : Linked sha256 seed old) (tampered : Tampered old new i)
    (free : CollisionFree sha256 (old++new)) (away : Unreturned sha256 seed (old++new)) :
    ∃ a e b, new = a++e::b ∧ a.length ≤ i+1 ∧ Linked sha256 seed a ∧
      ¬Passes sha256 (tip seed a) e := by
  have freeOld : CollisionFree sha256 old := free.mono fun e he => mem_append_left _ he
  have awayOld : Unreturned sha256 seed old := fun e he => away e (mem_append_left _ he)
  have freeNew : CollisionFree sha256 new := free.mono fun e he => mem_append_right _ he
  have awayNew : Unreturned sha256 seed new := fun e he => away e (mem_append_right _ he)
  cases tampered with
  | changed a e f b differ kept =>
      obtain ⟨front,here,rest⟩ := linked_append.mp linked
      by_cases pass : Passes sha256 (tip seed a) f
      · have moved : f.logHash ≠ e.logHash := fun h =>
          differ (free.same (by simp) (by simp) here pass h.symm).1
        cases b with
        | nil => simp [moved] at kept
        | cons g b =>
            refine ⟨a++[f],g,b,by simp,by simp,linked_snoc.mpr ⟨front,pass⟩,fun h => moved ?_⟩
            simp only [tip_append,tip_cons,tip_nil] at h
            exact h.1.symm.trans rest.1.1
      · exact ⟨a,f,b,rfl,by omega,front,pass⟩
  | deleted a gone e b nonempty =>
      exact ⟨a,e,b,rfl,by omega,(linked_append.mp linked).1,
        linked_misplaced nonempty freeOld awayOld linked⟩
  | inserted a f e b =>
      obtain ⟨front,here,rest⟩ := linked_append.mp linked
      by_cases pass : Passes sha256 (tip seed a) f
      · have both : Linked sha256 seed (a++[f]) := linked_snoc.mpr ⟨front,pass⟩
        have sub : ∀ x ∈ a++[f], x ∈ a++f::e::b := by
          intro x hx
          simp only [mem_append,mem_cons,not_mem_nil,or_false] at hx ⊢
          tauto
        have moved := linked_no_repeat (by simp) (freeNew.mono sub)
          (fun x hx => awayNew x (sub x hx)) both
        exact ⟨a++[f],e,b,by simp,by simp,both,fun h => moved (here.1.symm.trans h.1)⟩
      · exact ⟨a,f,e::b,rfl,by omega,front,pass⟩
  | reordered a e f b c ne perm =>
      have later : f ∈ b := by
        have : f ∈ e::b := perm.mem_iff.mpr (by simp)
        simpa [ne.symm] using this
      obtain ⟨m,d,rfl⟩ := append_of_mem later
      refine ⟨a,f,c,rfl,by omega,(linked_append.mp linked).1,?_⟩
      exact linked_misplaced (m := e::m) (by simp) freeOld awayOld linked

theorem map_entry_split {e : Entry}
    (h : logs.map Log.entry = a++e::b) :
    ∃ before log after, logs = before++log::after ∧ before.map Log.entry = a ∧ log.entry = e := by
  obtain ⟨before,rest,rfl,ha,hr⟩ := map_eq_append_iff.mp h
  obtain ⟨log,after,rfl,hl,-⟩ := map_eq_cons_iff.mp hr
  exact ⟨before,log,after,rfl,ha,hl⟩

theorem tip_getLast (seed : Option String) (h : logs ≠ []) :
    some (tip seed (logs.map Log.entry)) = logs.getLast?.map fun l => l.entry.logHash := by
  obtain ⟨logs,log,rfl⟩ := eq_nil_or_concat' logs |>.resolve_left h
  simp

/-- Tables of one length that both verify and end in the same hash agree on every
hashed field; and a table tampered with is reported no later than the row after the
first one altered. -/
theorem audit_chain_commits (sha256 : String → String) :
    (∀ (seed seed' : Option String) (logs logs' : List Log),
      (verifyAuditChain sha256 seed logs).valid → (verifyAuditChain sha256 seed' logs').valid →
      CollisionFree sha256 (logs.map Log.entry++logs'.map Log.entry) →
      logs.length = logs'.length →
      logs.getLast?.map (·.entry.logHash) = logs'.getLast?.map (·.entry.logHash) →
      List.Forall₂ (fun a b => SameHashed a.entry.fields b.entry.fields) logs logs') ∧
    (∀ (seed : Option String) (logs logs' : List Log) (i : Nat),
      (verifyAuditChain sha256 seed logs).valid →
      Tampered (logs.map Log.entry) (logs'.map Log.entry) i →
      CollisionFree sha256 (logs.map Log.entry++logs'.map Log.entry) →
      Unreturned sha256 seed (logs.map Log.entry++logs'.map Log.entry) →
      (verifyAuditChain sha256 seed logs').valid = false ∧
        ∃ j log, j ≤ i+1 ∧ logs'[j]? = some log ∧
          (verifyAuditChain sha256 seed logs').firstFailureId = some log.id) := by
  constructor
  · intro seed seed' logs logs' valid valid' free length last
    by_cases empty : logs = []
    · subst empty
      rw [length_eq_zero_iff.mp length.symm]
      exact .nil
    · have empty' : logs' ≠ [] := fun h => by simp [h,empty] at length
      rw [←tip_getLast seed empty,←tip_getLast seed' empty'] at last
      have agree := (linked_agree free (verifyAuditChain_valid.mp valid)
        (verifyAuditChain_valid.mp valid') (by simpa using length) (Option.some.inj last)).1
      rwa [forall₂_map_left_iff,forall₂_map_right_iff] at agree
  · intro seed logs logs' i valid tampered free away
    obtain ⟨a,e,b,split,close,linked,bad⟩ :=
      tampered_stops (verifyAuditChain_valid.mp valid) tampered free away
    obtain ⟨before,log,after,rfl,rfl,rfl⟩ := map_entry_split split
    obtain ⟨invalid,failure⟩ := verifyFrom_stops 0 after linked bad
    refine ⟨invalid,before.length,log,by simpa using close,by simp,failure⟩

def loginFields : LogFields DateTime where
  timestamp := ⟨2026,1,1,0,0,0,0,by decide⟩
  createdAtUtc := some "2026-01-01T00:00:00+00:00"
  level := some "info"
  category := some "crud"
  action := some "login"
  actor := none
  actorGravatarHash := none
  entityType := none
  entityId := none
  oldValue := none
  newValue := none
  userAgent := none
  ipAddress := none
  details := none
  statusCode := none
  actorId := some 7
  actorName := none
  entityName := none
  diff := none
  severity := none
  sessionId := none
  roleAtTime := none

def logoutFields : LogFields DateTime := {loginFields with action := some "logout"}

def loginHash : String := "512fba5009d38aef1fb2e87a565f576d7eb8e0e20ebe63b70cff02af595e1af7"
def logoutHash : String := "447b9c3842f103ec177b3461dd19999a8b23dbcb3a8b4eeb19a3c0ce0fe33025"

def loginDigests (text : String) : String :=
  if text = payloadText loginFields none then loginHash
  else if text = payloadText logoutFields none then logoutHash
  else ""

theorem logout_text_ne : payloadText logoutFields none ≠ payloadText loginFields none := by
  intro h
  exact absurd (payloadText_inj h).1.action (by decide)

theorem loginDigests_login : loginDigests (payloadText loginFields none) = loginHash := by
  simp [loginDigests]

theorem loginDigests_logout : loginDigests (payloadText logoutFields none) = logoutHash := by
  simp [loginDigests,logout_text_ne]

theorem login_linked : Linked loginDigests none [⟨loginFields,none,some loginHash⟩] :=
  ⟨⟨rfl,congrArg some loginDigests_login.symm⟩,trivial⟩

theorem audit_chain_commits_login :
    SameHashed loginFields {loginFields with details := some "x"} ∧
      (verifyAuditChain loginDigests none [⟨1,⟨logoutFields,none,some loginHash⟩⟩]).valid = false := by
  obtain ⟨agree,detects⟩ := audit_chain_commits loginDigests
  have valid : (verifyAuditChain loginDigests none [⟨1,⟨loginFields,none,some loginHash⟩⟩]).valid :=
    verifyAuditChain_valid.mpr login_linked
  have valid' : (verifyAuditChain loginDigests none
      [⟨9,⟨{loginFields with details := some "x"},none,some loginHash⟩⟩]).valid :=
    verifyAuditChain_valid.mpr login_linked
  constructor
  · have free : CollisionFree loginDigests ([⟨loginFields,none,some loginHash⟩]++
        [⟨{loginFields with details := some "x"},none,some loginHash⟩]) := by
      intro s hs t ht _
      simp only [Entry.text,cons_append,nil_append,mem_cons,not_mem_nil,or_false,
        exists_eq_or_imp,exists_eq_left,Set.mem_ofPred_eq] at hs ht
      have same : ∀ x, payloadText loginFields none = x ∨
          payloadText {loginFields with details := some "x"} none = x →
          x = payloadText loginFields none := by
        rintro x (h | h)
        · exact h.symm
        · exact h.symm
      rw [same s hs,same t ht]
    cases agree none none _ _ valid valid' free rfl rfl with
    | cons row _ => exact row
  · have changed : Tampered [⟨loginFields,none,some loginHash⟩] [⟨logoutFields,none,some loginHash⟩] 0 :=
      .changed [] _ _ [] (fun h => absurd h.action (by decide)) (.inl rfl)
    refine (detects none _ [⟨1,⟨logoutFields,none,some loginHash⟩⟩] 0 valid changed ?_ ?_).1
    · intro s hs t ht same
      simp only [Entry.text,map_cons,map_nil,cons_append,nil_append,mem_cons,
        not_mem_nil,or_false,exists_eq_or_imp,exists_eq_left,Set.mem_ofPred_eq] at hs ht
      rcases hs with rfl | rfl <;> rcases ht with rfl | rfl
      · rfl
      · rw [loginDigests_login,loginDigests_logout] at same
        exact absurd same (by decide)
      · rw [loginDigests_login,loginDigests_logout] at same
        exact absurd same (by decide)
      · rfl
    · intro e _
      simp

end CircuitBreaker.Audit
