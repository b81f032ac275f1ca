import CircuitBreaker.TextPattern
import Mathlib.Data.List.Sort
import Mathlib.Algebra.BigOperators.Group.List.Basic
import Mathlib.Algebra.GroupWithZero.Nat

/-! The lifecycle contract's documents (deploy/scripts/lifecycle-state.py): JSON
values, their canonical text, and the small JSON Schema subset that `_check`
interprets. A `$ref` is the Lean name of the definition it points to. -/

namespace CircuitBreaker.Lifecycle
open TextPattern List

inductive Scalar where
  | null
  | bool (b : Bool)
  | int (n : Int)
  | str (s : String)
  deriving DecidableEq

/-- A member list keeps the order of the text. Python's dict has each key once. -/
inductive Json where
  | lit (s : Scalar)
  | arr (items : List Json)
  | obj (members : List (String × Json))

def Json.str (s : String) : Json := .lit (.str s)
def Json.int (n : Int) : Json := .lit (.int n)

def Json.get : Json → String → Option Json
  | .obj members, key => members.lookup key
  | _, _ => none

inductive JsonType where
  | null | boolean | integer | string | array | object
  deriving DecidableEq

def JsonType.name : JsonType → String
  | .null => "null"
  | .boolean => "boolean"
  | .integer => "integer"
  | .string => "string"
  | .array => "array"
  | .object => "object"

def Json.typeOf : Json → JsonType
  | .lit .null => .null
  | .lit (.bool _) => .boolean
  | .lit (.int _) => .integer
  | .lit (.str _) => .string
  | .arr _ => .array
  | .obj _ => .object

/-- `_same` against a value of the schema, which are all scalars. -/
def Json.same : Json → Scalar → Bool
  | .lit s, option => s == option
  | _, _ => false

/-! The canonical text. -/

structure ContractError where
  path : String
  reason : String
  unsupported : Bool := false

def maxSafe : Int := 2^53-1
def maxDepth : Nat := 32

def hexDigit (n : Nat) : Char := "0123456789abcdef".toList.getD n '0'

/-- The escapes of `json.dumps` with `ensure_ascii=False`. -/
def escape (c : Char) : List Char :=
  if c = '"' then ['\\','"']
  else if c = '\\' then ['\\','\\']
  else if c = '\n' then ['\\','n']
  else if c = '\r' then ['\\','r']
  else if c = '\t' then ['\\','t']
  else if c.toNat = 12 then ['\\','f']
  else if c.toNat = 8 then ['\\','b']
  else if c.toNat < 32 then ['\\','u','0','0',hexDigit (c.toNat/16),hexDigit (c.toNat%16)]
  else [c]

def quote (s : String) : List Char := '"' :: (s.toList.flatMap escape ++ ['"'])

def Scalar.text : Scalar → List Char
  | .null => "null".toList
  | .bool b => (if b then "true" else "false").toList
  | .int n => (toString n).toList
  | .str s => quote s

/-- `_js`, as the messages show it. -/
def Scalar.js (s : Scalar) : String := String.ofList s.text

def lowercase : CharClass := ⟨[(97,122)],false⟩
def snakeChar : CharClass := ⟨[(97,122),(48,57),(95,95)],false⟩

def keyPattern : Pattern := (Pattern.seq (.cls lowercase) (.rep (.cls snakeChar) 0 none)).whole

def keyOk (key : String) : Bool := keyPattern.search key.toList

def canonicalScalar (s : Scalar) (path : String) : Except ContractError (List Char) :=
  match s with
  | .int n =>
      if n.natAbs ≤ maxSafe then .ok s.text
      else .error ⟨path,toString n ++
        " is not a safe integer (no fractions, -0 or values beyond 2^53-1)",false⟩
  | _ => .ok s.text

def commas : List (List Char) → List Char
  | [] => []
  | [t] => t
  | t::ts => t ++ ',' :: commas ts

def tooDeep (path : String) : ContractError :=
  ⟨path,"nested deeper than " ++ toString maxDepth ++ " levels",false⟩

def badKey (path key : String) : ContractError :=
  ⟨path ++ "/" ++ key,"key " ++ String.ofList ((quote key).take 66) ++
    " is not lowercase snake_case ASCII",false⟩

/-- `sorted(value)`: by code points. -/
def byKey {α : Type} (members : List (String × α)) : List (String × α) :=
  members.insertionSort fun a b => a.1 ≤ b.1

mutual
/-- `_canonical`. A string of the model has no lone surrogate. -/
def canonical : Json → String → Nat → Except ContractError (List Char)
  | .lit s, path, depth =>
      if depth > maxDepth then .error (tooDeep path) else canonicalScalar s path
  | .arr items, path, depth =>
      if depth > maxDepth then .error (tooDeep path)
      else (canonicalItems items path 0 (depth+1)).map fun parts => '[' :: (commas parts ++ [']'])
  | .obj members, path, depth =>
      if depth > maxDepth then .error (tooDeep path)
      else ((byKey (canonicalMembers members path (depth+1))).mapM Prod.snd).map fun parts =>
        '\x7b' :: (commas parts ++ ['\x7d'])
def canonicalItems : List Json → String → Nat → Nat → Except ContractError (List (List Char))
  | [], _, _, _ => .ok []
  | v::vs, path, i, depth => do
      let part ← canonical v (path ++ "/" ++ toString i) depth
      let parts ← canonicalItems vs path (i+1) depth
      pure (part::parts)
/-- The members keep their own refusals until they are sorted. -/
def canonicalMembers : List (String × Json) → String → Nat →
    List (String × Except ContractError (List Char))
  | [], _, _ => []
  | (key,v)::rest, path, depth =>
      (key,if keyOk key then
          (canonical v (path ++ "/" ++ key) depth).map fun t => quote key ++ ':' :: t
        else .error (badKey path key)) :: canonicalMembers rest path depth
end

def canonicalize (v : Json) : Except ContractError (List Char) := canonical v "" 0

def utf8Size (t : List Char) : Nat := (t.map Char.utf8Size).sum

/-! What canonicalization accepts, and how long its text is. -/

def Scalar.safe : Scalar → Bool
  | .int n => n.natAbs ≤ maxSafe
  | _ => true

mutual
/-- Safe integers, snake_case keys and at most `maxDepth` levels, from depth `d` on. -/
def Json.plain : Json → Nat → Bool
  | .lit s, d => d ≤ maxDepth && s.safe
  | .arr items, d => d ≤ maxDepth && plainItems items (d+1)
  | .obj members, d => d ≤ maxDepth && plainMembers members (d+1)
def plainItems : List Json → Nat → Bool
  | [], _ => true
  | v::vs, d => v.plain d && plainItems vs d
def plainMembers : List (String × Json) → Nat → Bool
  | [], _ => true
  | (key,v)::rest, d => keyOk key && v.plain d && plainMembers rest d
end

mutual
def Json.bytes : Json → Nat
  | .lit s => utf8Size s.text
  | .arr items => 2+itemBytes items
  | .obj members => 2+memberBytes members
def itemBytes : List Json → Nat
  | [] => 0
  | v::vs => v.bytes+1+itemBytes vs
def memberBytes : List (String × Json) → Nat
  | [] => 0
  | (key,v)::rest => utf8Size (quote key)+1+v.bytes+1+memberBytes rest
end

theorem utf8Size_append (s t : List Char) : utf8Size (s++t) = utf8Size s+utf8Size t := by
  simp [utf8Size]

theorem utf8Size_cons (c : Char) (t : List Char) : utf8Size (c::t) = c.utf8Size+utf8Size t := by
  simp [utf8Size]

theorem utf8Size_brackets (l r : Char) (t : List Char) (hl : l.utf8Size = 1)
    (hr : r.utf8Size = 1) : utf8Size (l :: (t ++ [r])) = 2+utf8Size t := by
  simp [utf8Size,hl,hr]
  omega

theorem utf8Size_commas (parts : List (List Char)) :
    utf8Size (commas parts) ≤ (parts.map fun t => utf8Size t+1).sum := by
  induction parts with
  | nil => simp [commas,utf8Size]
  | cons t ts ih =>
    cases ts with
    | nil => simp [commas]
    | cons u us =>
      have : Char.utf8Size ',' = 1 := by decide
      simp only [commas,utf8Size_append,utf8Size_cons,map_cons,sum_cons,this] at ih ⊢
      omega

def partSize : Except ContractError (List Char) → Nat
  | .ok t => utf8Size t+1
  | .error _ => 0

theorem mapM_parts {l : List (String × Except ContractError (List Char))} {ts : List (List Char)}
    (h : l.mapM Prod.snd = .ok ts) :
    (∀ m ∈ l, ∃ t, m.2 = .ok t) ∧
      (ts.map fun t => utf8Size t+1).sum = (l.map fun m => partSize m.2).sum := by
  induction l generalizing ts with
  | nil =>
    simp [pure,Except.pure] at h
    simp [h]
  | cons m l ih =>
    obtain ⟨key,r⟩ := m
    cases r with
    | error e => simp [bind,Except.bind] at h
    | ok t =>
      cases hl : l.mapM Prod.snd with
      | error e => simp [hl,bind,Except.bind] at h
      | ok us =>
        simp [hl,bind,Except.bind,pure,Except.pure] at h
        obtain ⟨hm,hs⟩ := ih hl
        subst h
        simpa [partSize,hs] using hm

theorem mapM_exists {l : List (String × Except ContractError (List Char))}
    (h : ∀ m ∈ l, ∃ t, m.2 = .ok t) : ∃ ts, l.mapM Prod.snd = .ok ts := by
  induction l with
  | nil => exact ⟨[],rfl⟩
  | cons m l ih =>
    obtain ⟨t,ht⟩ := h m (by simp)
    obtain ⟨ts,hts⟩ := ih fun m hm => h m (by simp [hm])
    exact ⟨t::ts,by simp [ht,hts,bind,Except.bind,pure,Except.pure]⟩

mutual
theorem canonical_plain : ∀ {v : Json} {path : String} {d : Nat} {t : List Char},
    canonical v path d = .ok t → v.plain d = true ∧ utf8Size t ≤ v.bytes
  | .lit s, path, d, t, h => by
    by_cases hd : d > maxDepth
    · simp [canonical,hd] at h
    · cases s with
      | int n =>
        by_cases hn : n.natAbs ≤ maxSafe
        · have text : canonicalScalar (.int n) path = .ok (Scalar.int n).text := if_pos hn
          have safe : (Scalar.int n).safe = true := decide_eq_true hn
          simp [canonical,hd,text] at h
          simp [Json.plain,safe,Json.bytes,←h,not_lt.1 hd]
        · rw [canonical,if_neg hd,canonicalScalar,if_neg hn] at h
          exact nomatch h
      | _ =>
        simp [canonical,hd,canonicalScalar] at h
        simp [Json.plain,Scalar.safe,Json.bytes,←h,not_lt.1 hd]
  | .arr items, path, d, t, h => by
    by_cases hd : d > maxDepth
    · simp [canonical,hd] at h
    · cases hp : canonicalItems items path 0 (d+1) with
      | error e => simp [canonical,hd,hp,Except.map] at h
      | ok parts =>
        simp [canonical,hd,hp,Except.map] at h
        obtain ⟨hi,hs⟩ := canonicalItems_plain hp
        have hc := utf8Size_commas parts
        have hb := utf8Size_brackets '[' ']' (commas parts) (by decide) (by decide)
        refine ⟨by simp [Json.plain,hi,not_lt.1 hd],?_⟩
        simp only [Json.bytes,←h]
        omega
  | .obj members, path, d, t, h => by
    by_cases hd : d > maxDepth
    · simp [canonical,hd] at h
    · cases hp : (byKey (canonicalMembers members path (d+1))).mapM Prod.snd with
      | error e => simp [canonical,hd,hp,Except.map] at h
      | ok parts =>
        simp [canonical,hd,hp,Except.map] at h
        obtain ⟨hm,hs⟩ := mapM_parts hp
        have perm := perm_insertionSort
          (fun a b : String × Except ContractError (List Char) => a.1 ≤ b.1)
          (canonicalMembers members path (d+1))
        obtain ⟨hi,hb⟩ := @canonicalMembers_plain members path (d+1)
          fun m hm' => hm m (perm.mem_iff.2 hm')
        have hc := utf8Size_commas parts
        have hb' := utf8Size_brackets '\x7b' '\x7d' (commas parts) (by decide) (by decide)
        refine ⟨by simp [Json.plain,hi,not_lt.1 hd],?_⟩
        have sum := (perm.map fun m => partSize m.2).sum_eq
        simp only [byKey] at hs
        simp only [Json.bytes,←h]
        omega
theorem canonicalItems_plain : ∀ {items : List Json} {path : String} {i d : Nat}
    {parts : List (List Char)}, canonicalItems items path i d = .ok parts →
    plainItems items d = true ∧ (parts.map fun t => utf8Size t+1).sum ≤ itemBytes items
  | [], path, i, d, parts, h => by
    simp [canonicalItems] at h
    simp [plainItems,itemBytes,h]
  | v::vs, path, i, d, parts, h => by
    cases hv : canonical v (path ++ "/" ++ toString i) d with
    | error e => simp only [canonicalItems,hv,bind,Except.bind,reduceCtorEq] at h
    | ok t =>
      cases hvs : canonicalItems vs path (i+1) d with
      | error e => simp only [canonicalItems,hv,hvs,bind,Except.bind,reduceCtorEq] at h
      | ok ts =>
        simp only [canonicalItems,hv,hvs,bind,Except.bind,pure,Except.pure,Except.ok.injEq] at h
        obtain ⟨h₁,h₂⟩ := canonical_plain hv
        obtain ⟨h₃,h₄⟩ := canonicalItems_plain hvs
        refine ⟨by simp [plainItems,h₁,h₃],?_⟩
        simp only [←h,itemBytes,map_cons,sum_cons]
        omega
theorem canonicalMembers_plain : ∀ {members : List (String × Json)} {path : String} {d : Nat},
    (∀ m ∈ canonicalMembers members path d, ∃ t, m.2 = .ok t) →
    plainMembers members d = true ∧
      ((canonicalMembers members path d).map fun m => partSize m.2).sum ≤ memberBytes members
  | [], path, d, h => by simp [plainMembers,canonicalMembers]
  | (key,v)::rest, path, d, h => by
    simp only [canonicalMembers,mem_cons,forall_eq_or_imp] at h
    obtain ⟨⟨t,ht⟩,hr⟩ := h
    obtain ⟨h₁,h₂⟩ := canonicalMembers_plain hr
    by_cases hk : keyOk key
    · simp only [hk,if_true] at ht
      cases hv : canonical v (path ++ "/" ++ key) d with
      | error e => simp [hv,Except.map] at ht
      | ok u =>
        obtain ⟨h₃,h₄⟩ := canonical_plain hv
        have colon : Char.utf8Size ':' = 1 := by decide
        refine ⟨by simp [plainMembers,hk,h₁,h₃],?_⟩
        have part : partSize (.ok (quote key ++ ':' :: u)) = utf8Size (quote key)+1+utf8Size u+1 := by
          simp only [partSize,utf8Size_append,utf8Size_cons,colon]
          omega
        simp only [canonicalMembers,hk,if_true,hv,Except.map,map_cons,sum_cons,
          part,memberBytes]
        omega
    · simp [hk] at ht
end

mutual
theorem plain_canonical : ∀ {v : Json} {d : Nat} (path : String),
    v.plain d = true → ∃ t, canonical v path d = .ok t
  | .lit s, d, path, h => by
    simp only [Json.plain,Bool.and_eq_true,decide_eq_true_eq] at h
    refine ⟨s.text,?_⟩
    cases s <;> simp_all [canonical,canonicalScalar,Scalar.safe,not_lt.2]
  | .arr items, d, path, h => by
    simp only [Json.plain,Bool.and_eq_true,decide_eq_true_eq] at h
    obtain ⟨parts,hp⟩ := plain_canonicalItems path 0 h.2
    exact ⟨'[' :: (commas parts ++ [']']),by simp [canonical,hp,not_lt.2 h.1,Except.map]⟩
  | .obj members, d, path, h => by
    simp only [Json.plain,Bool.and_eq_true,decide_eq_true_eq] at h
    have hm := plain_canonicalMembers path h.2
    have perm := perm_insertionSort
      (fun a b : String × Except ContractError (List Char) => a.1 ≤ b.1)
      (canonicalMembers members path (d+1))
    obtain ⟨parts,hp⟩ := mapM_exists fun m hm' => hm m (perm.mem_iff.1 hm')
    exact ⟨'\x7b' :: (commas parts ++ ['\x7d']),
      by simp [canonical,byKey,hp,not_lt.2 h.1,Except.map]⟩
theorem plain_canonicalItems : ∀ {items : List Json} {d : Nat} (path : String) (i : Nat),
    plainItems items d = true → ∃ parts, canonicalItems items path i d = .ok parts
  | [], d, path, i, h => ⟨[],by simp [canonicalItems]⟩
  | v::vs, d, path, i, h => by
    simp only [plainItems,Bool.and_eq_true] at h
    obtain ⟨t,ht⟩ := plain_canonical (path ++ "/" ++ toString i) h.1
    obtain ⟨ts,hts⟩ := plain_canonicalItems path (i+1) h.2
    exact ⟨t::ts,by simp only [canonicalItems,ht,hts,bind,Except.bind,pure,Except.pure]⟩
theorem plain_canonicalMembers : ∀ {members : List (String × Json)} {d : Nat} (path : String),
    plainMembers members d = true → ∀ m ∈ canonicalMembers members path d, ∃ t, m.2 = .ok t
  | [], d, path, h => by simp [canonicalMembers]
  | (key,v)::rest, d, path, h => by
    simp only [plainMembers,Bool.and_eq_true] at h
    obtain ⟨t,ht⟩ := plain_canonical (path ++ "/" ++ key) h.1.2
    simp only [canonicalMembers,mem_cons,forall_eq_or_imp]
    exact ⟨⟨quote key ++ ':' :: t,by simp [h.1.1,ht,Except.map]⟩,
      plain_canonicalMembers path h.2⟩
end

/-! The schema subset. -/

structure Shape where
  source : String
  pattern : Pattern

inductive Format where
  | utcTimestamp | operationId

structure Keywords where
  types : List JsonType := []
  const : Option Scalar := none
  enum : Option (List Scalar) := none
  minLength : Nat := 0
  maxLength : Option Nat := none
  pattern : Option Shape := none
  xReason : Option String := none
  format : Option Format := none
  minimum : Option Int := none
  maximum : Option Int := none
  minItems : Nat := 0
  maxItems : Option Nat := none
  uniqueItems : Bool := false
  description : Option String := none

/-- `closed` is `additionalProperties: false`; an absent list keyword is empty. -/
inductive Node where
  | node (words : Keywords) (items : Option Node) (properties : List (String × Node))
      (required : List String) (closed : Bool) (oneOf anyOf : List Node) (not : Option Node)

def Node.words : Node → Keywords
  | .node words _ _ _ _ _ _ _ => words

def leaf (words : Keywords) : Node := .node words none [] [] false [] [] none

def enumOf (options : List String) : Node := leaf { enum := some (options.map .str) }

def closedObject (types : List JsonType) (required : List String)
    (properties : List (String × Node)) : Node :=
  .node { types := types } none properties required true [] [] none

def listOf (words : Keywords) (items : Node) : Node :=
  .node { words with types := [.array] } (some items) [] [] false [] [] none

def anyOf (branches : List Node) : Node := .node {} none [] [] false [] branches none

def nullable (n : Node) : Node := anyOf [leaf { types := [.null] },n]

def oneOf (branches : List Node) : Node := .node {} none [] [] false branches [] none

inductive Keyword where
  | type | const | enum | minLength | maxLength | pattern | format | minimum | maximum
  | minItems | maxItems | uniqueItems | required | additionalProperties | oneOf | not
  deriving DecidableEq

structure Refusal where
  path : String
  reason : String
  keyword : Keyword
  deriving DecidableEq

def refuseIf (bad : Bool) (path reason : String) (keyword : Keyword) : Option Refusal :=
  if bad then some ⟨path,reason,keyword⟩ else none

variable {path : String}

@[simp] theorem refuseIf_eq_none {bad : Bool} {reason : String} {keyword : Keyword} :
    refuseIf bad path reason keyword = none ↔ bad = false := by
  cases bad <;> simp [refuseIf]

def daysIn (year month : Nat) : Nat :=
  let leap := year%4 = 0 ∧ (year%100 ≠ 0 ∨ year%400 = 0)
  [31,if leap then 29 else 28,31,30,31,30,31,31,30,31,30,31].getD (month-1) 0

def realDate (year month day : Nat) : Bool :=
  !(year < 1 || !(1 ≤ month && month ≤ 12) || day < 1) && day ≤ daysIn year month

/-- `int(s[i:j])` of a text whose pattern puts digits there. -/
def digitsAt (s : List Char) (i j : Nat) : Nat :=
  ((s.drop i).take (j-i)).foldl (fun n c => 10*n+(c.toNat-48)) 0

def Format.holds (f : Format) (s : List Char) : Bool :=
  match f with
  | .utcTimestamp =>
      realDate (digitsAt s 0 4) (digitsAt s 5 7) (digitsAt s 8 10) &&
        digitsAt s 11 13 ≤ 23 && digitsAt s 14 16 ≤ 59 && digitsAt s 17 19 ≤ 59
  | .operationId => realDate (digitsAt s 3 7) (digitsAt s 7 9) (digitsAt s 9 11)

def checkString (k : Keywords) (s : List Char) (path : String) : Option Refusal :=
  refuseIf (s.length < k.minLength) path
    ("must be at least " ++ toString k.minLength ++ " characters") .minLength <|>
  (k.maxLength.bind fun n => refuseIf (s.length > n) path
    ("must be at most " ++ toString n ++ " characters") .maxLength) <|>
  (k.pattern.bind fun p => refuseIf (!p.pattern.search s) path
    (k.xReason.getD ("does not match the pattern " ++ p.source)) .pattern) <|>
  (k.format.bind fun f => refuseIf (!f.holds s) path
    "is not a real calendar date and time" .format)

def checkInteger (k : Keywords) (n : Int) (path : String) : Option Refusal :=
  (k.minimum.bind fun m => refuseIf (n < m) path ("must be at least " ++ toString m) .minimum) <|>
  (k.maximum.bind fun m => refuseIf (n > m) path ("must be at most " ++ toString m) .maximum)

def scalars (items : List Json) : List Scalar :=
  items.filterMap fun | .lit s => some s | _ => none

def checkArray (k : Keywords) (items : List Json) (path : String) : Option Refusal :=
  refuseIf (items.length < k.minItems) path
    ("must have at least " ++ toString k.minItems ++ " item(s)") .minItems <|>
  (k.maxItems.bind fun n => refuseIf (items.length > n) path
    ("must have at most " ++ toString n ++ " items") .maxItems) <|>
  refuseIf (k.uniqueItems && !(scalars items).Nodup) path "items must be unique" .uniqueItems

def checkWords (k : Keywords) (v : Json) (path : String) : Option Refusal :=
  refuseIf (!k.types.isEmpty && !k.types.contains v.typeOf) path
    ("must be " ++ " or ".intercalate (k.types.map JsonType.name)) .type <|>
  (k.const.bind fun c => refuseIf (!v.same c) path ("must be " ++ c.js) .const) <|>
  (k.enum.bind fun options => refuseIf (!options.any v.same) path
    ("must be one of " ++ ", ".intercalate (options.map Scalar.js)) .enum) <|>
  match v with
  | .lit (.str s) => checkString k s.toList path
  | .lit (.int n) => checkInteger k n path
  | .arr items => checkArray k items path
  | _ => none

def secretName : Pattern :=
  .alt (.seq (lit "pass") (.rep (.alt (lit "word") (lit "wd")) 0 (some 1)))
    (.alt (lit "secret") (.alt (lit "token") (.alt (lit "credential")
      (.alt (.seq (lit "api") (.seq (.rep (lit "_") 0 (some 1)) (lit "key")))
        (.alt (lit "private_key") (.alt (lit "vault_key") (lit "key").whole))))))

def extraReason (key : String) : String :=
  if secretName.search key.toList then key ++
    " looks like a secret field and is not allowed; record a reference to protected storage instead"
  else key ++ " is not allowed here"

def checkKeys (properties : List String) (required : List String)
    (members : List (String × Json)) (path : String) : Option Refusal :=
  (required.findSome? fun key => refuseIf (members.lookup key).isNone (path ++ "/" ++ key)
    (key ++ " is required") .required) <|>
  (members.findSome? fun m => refuseIf (!properties.contains m.1) (path ++ "/" ++ m.1)
    (extraReason m.1) .additionalProperties)

/-- A branch that failed on a discriminating const, or on the instance's own type,
was not the one meant. -/
def explain (errors : List Refusal) (path : String) : Option Refusal :=
  (errors.find? fun e => e.keyword ≠ .const && !(e.keyword = .type && e.path = path)).or
    errors.head?

def checkVerdicts (one : Bool) (verdicts : List (Option Refusal)) (path : String) :
    Option Refusal :=
  if verdicts.isEmpty then none
  else if verdicts.count none = 0 then explain (verdicts.filterMap id) path
  else refuseIf (one && verdicts.count none > 1) path "matches more than one alternative" .oneOf

def checkClosed (closed : Bool) (known : Option Refusal) (properties required : List String)
    (v : Json) (path : String) : Option Refusal :=
  match closed, v with
  | true, .obj members => known <|> checkKeys properties required members path
  | _, _ => none

mutual
def check : Node → Json → String → Option Refusal
  | .node words items properties required closed oneOf anyOf no, v, path =>
      checkWords words v path <|>
      checkItems items v path <|>
      checkClosed closed (checkProperties properties v path) (properties.map (·.1)) required v
        path <|>
      checkVerdicts true (checkBranches oneOf v path) path <|>
      checkVerdicts false (checkBranches anyOf v path) path <|>
      checkNot no v path
def checkItems : Option Node → Json → String → Option Refusal
  | some n, .arr items, path =>
      items.zipIdx.findSome? fun item => check n item.1 (path ++ "/" ++ toString item.2)
  | _, _, _ => none
def checkProperties : List (String × Node) → Json → String → Option Refusal
  | [], _, _ => none
  | (key,sub)::rest, v, path =>
      (match v.get key with
      | some x => check sub x (path ++ "/" ++ key)
      | none => none) <|> checkProperties rest v path
def checkBranches : List Node → Json → String → List (Option Refusal)
  | [], _, _ => []
  | n::rest, v, path => check n v path :: checkBranches rest v path
def checkNot : Option Node → Json → String → Option Refusal
  | some n, v, path =>
      refuseIf (check n v path).isNone path
        (n.words.description.getD "has a forbidden shape") .not
  | none, _, _ => none
end

/-! Schema validity: what `check` decides, without paths and messages. -/

def Keywords.acceptsText (k : Keywords) (s : List Char) : Bool :=
  k.minLength ≤ s.length && k.maxLength.all (s.length ≤ ·) &&
    k.pattern.all (·.pattern.search s) && k.format.all (·.holds s)

def Keywords.acceptsInteger (k : Keywords) (n : Int) : Bool :=
  k.minimum.all (· ≤ n) && k.maximum.all (n ≤ ·)

def Keywords.acceptsArray (k : Keywords) (items : List Json) : Bool :=
  k.minItems ≤ items.length && k.maxItems.all (items.length ≤ ·) &&
    (!k.uniqueItems || (scalars items).Nodup)

def Keywords.accepts (k : Keywords) (v : Json) : Bool :=
  (k.types.isEmpty || k.types.contains v.typeOf) && k.const.all v.same &&
    k.enum.all (·.any v.same) &&
    match v with
    | .lit (.str s) => k.acceptsText s.toList
    | .lit (.int n) => k.acceptsInteger n
    | .arr items => k.acceptsArray items
    | _ => true

def keysFit (properties required : List String) (members : List (String × Json)) : Bool :=
  (required.all fun key => (members.lookup key).isSome) &&
    members.all fun m => properties.contains m.1

def fitsClosed (closed known : Bool) (properties required : List String) (v : Json) : Bool :=
  match closed, v with
  | true, .obj members => known && keysFit properties required members
  | _, _ => true

mutual
def Node.valid : Node → Json → Bool
  | .node words items properties required closed oneOf anyOf no, v =>
      words.accepts v && validItems items v &&
      fitsClosed closed (validProperties properties v) (properties.map (·.1)) required v &&
      (oneOf.isEmpty || (validBranches oneOf v).count true = 1) &&
      (anyOf.isEmpty || (validBranches anyOf v).contains true) && validNot no v
def validItems : Option Node → Json → Bool
  | some n, .arr items => items.all fun item => n.valid item
  | _, _ => true
def validProperties : List (String × Node) → Json → Bool
  | [], _ => true
  | (key,sub)::rest, v =>
      (match v.get key with
      | some x => sub.valid x
      | none => true) && validProperties rest v
def validBranches : List Node → Json → List Bool
  | [], _ => []
  | n::rest, v => n.valid v :: validBranches rest v
def validNot : Option Node → Json → Bool
  | some n, v => !n.valid v
  | none, _ => true
end

theorem orElse_eq_none {α : Type} {a b : Option α} : (a <|> b) = none ↔ a = none ∧ b = none := by
  cases a <;> simp

theorem bind_refuseIf {α : Type} {o : Option α} {bad : α → Bool}
    {reason : α → String} {keyword : Keyword} :
    (o.bind fun x => refuseIf (bad x) path (reason x) keyword) = none ↔
      (o.all fun x => !bad x) = true := by
  cases o <;> simp

theorem checkString_eq_none {k : Keywords} {s : List Char} :
    checkString k s path = none ↔ k.acceptsText s = true := by
  simp only [checkString,Keywords.acceptsText,orElse_eq_none,bind_refuseIf,refuseIf_eq_none,
    Bool.and_eq_true]
  simp [and_assoc,←decide_not]

theorem checkInteger_eq_none {k : Keywords} {n : Int} :
    checkInteger k n path = none ↔ k.acceptsInteger n = true := by
  simp only [checkInteger,Keywords.acceptsInteger,orElse_eq_none,bind_refuseIf,Bool.and_eq_true]
  simp [←decide_not]

theorem checkArray_eq_none {k : Keywords} {items : List Json} :
    checkArray k items path = none ↔ k.acceptsArray items = true := by
  simp only [checkArray,Keywords.acceptsArray,orElse_eq_none,bind_refuseIf,refuseIf_eq_none,
    Bool.and_eq_true]
  have unique : (k.uniqueItems && !(decide (scalars items).Nodup)) = false ↔
      (!k.uniqueItems || decide (scalars items).Nodup) = true := by
    cases k.uniqueItems <;> simp
  rw [unique]
  simp [and_assoc,←decide_not]

theorem checkWords_eq_none {k : Keywords} {v : Json} :
    checkWords k v path = none ↔ k.accepts v = true := by
  have types : (!k.types.isEmpty && !k.types.contains v.typeOf) = false ↔
      (k.types.isEmpty || k.types.contains v.typeOf) = true := by
    cases k.types.isEmpty <;> cases k.types.contains v.typeOf <;> simp
  simp only [checkWords,Keywords.accepts,orElse_eq_none,bind_refuseIf,refuseIf_eq_none,types,
    Bool.and_eq_true,Bool.not_not,and_assoc]
  refine and_congr_right fun _ => and_congr_right fun _ => and_congr_right fun _ => ?_
  split
  · exact checkString_eq_none
  · exact checkInteger_eq_none
  · exact checkArray_eq_none
  · simp

theorem checkKeys_eq_none {properties required : List String} {members : List (String × Json)} : checkKeys properties required members path = none ↔
      keysFit properties required members = true := by
  simp [checkKeys,keysFit]

theorem checkClosed_eq_none {closed : Bool} {known : Option Refusal} {fits : Bool}
    {properties required : List String} {v : Json}
    (h : known = none ↔ fits = true) : checkClosed closed known properties required v path = none ↔
      fitsClosed closed fits properties required v = true := by
  cases closed <;> cases v <;>
    simp [checkClosed,fitsClosed,h,checkKeys_eq_none]

theorem checkBranches_eq_nil {branches : List Node} {v : Json} :
    checkBranches branches v path = [] ↔ branches = [] := by
  cases branches <;> simp [checkBranches]

theorem explain_eq_none {errors : List Refusal} :
    explain errors path = none ↔ errors = [] := by
  cases errors <;> simp [explain]

theorem checkVerdicts_eq_none {one : Bool} {verdicts : List (Option Refusal)} :
    checkVerdicts one verdicts path = none ↔ verdicts = [] ∨
      0 < verdicts.count none ∧ (one = true → verdicts.count none = 1) := by
  by_cases he : verdicts = []
  · simp [checkVerdicts,he]
  · by_cases hz : verdicts.count none = 0
    · have some : ∃ e, e ∈ verdicts.filterMap id := by
        obtain ⟨v,hv⟩ := exists_mem_of_ne_nil _ he
        cases v with
        | none => exact absurd hv (count_eq_zero.1 hz)
        | some e => exact ⟨e,by simpa using hv⟩
      have ne : verdicts.filterMap id ≠ [] := ne_nil_of_mem some.choose_spec
      have : explain (verdicts.filterMap id) path ≠ none := mt explain_eq_none.1 ne
      have empty : verdicts.isEmpty = false := by simpa using he
      simp only [checkVerdicts,empty,hz,Bool.false_eq_true,if_false,if_true,this,he,
        Nat.lt_irrefl,false_and,or_self]
    · cases one <;> simp [checkVerdicts,he,hz,Nat.pos_of_ne_zero hz]
      omega

mutual
theorem check_eq_none : ∀ {n : Node} {v : Json} {path : String},
    check n v path = none ↔ n.valid v = true
  | .node words items properties required closed oneOf anyOf no, v, path => by
    have one : checkVerdicts true (checkBranches oneOf v path) path = none ↔
        (oneOf.isEmpty || (validBranches oneOf v).count true = 1) = true := by
      rw [checkVerdicts_eq_none,checkBranches_count,checkBranches_eq_nil]
      simp only [Bool.or_eq_true,List.isEmpty_iff,decide_eq_true_eq,forall_const]
      refine or_congr_right ⟨fun h => h.2,fun h => ⟨by omega,h⟩⟩
    have any : checkVerdicts false (checkBranches anyOf v path) path = none ↔
        (anyOf.isEmpty || (validBranches anyOf v).contains true) = true := by
      rw [checkVerdicts_eq_none,checkBranches_count,checkBranches_eq_nil]
      simp [count_pos_iff]
    simp only [check,Node.valid,orElse_eq_none,checkWords_eq_none,checkItems_eq_none,one,
      any,checkNot_eq_none,checkClosed_eq_none checkProperties_eq_none,Bool.and_eq_true,and_assoc]
theorem checkItems_eq_none : ∀ {n : Option Node} {v : Json} {path : String},
    checkItems n v path = none ↔ validItems n v = true
  | none, v, path => by simp [checkItems,validItems]
  | some n, .arr items, path => by
    simp only [checkItems,validItems,findSome?_eq_none_iff,all_eq_true,Prod.forall]
    constructor
    · intro h item hi
      obtain ⟨i,hi⟩ := mem_iff_getElem?.1 hi
      exact check_eq_none.1 (h item i (by simpa [mem_zipIdx_iff_getElem?] using hi))
    · intro h item i hi
      exact check_eq_none.2 (h item (fst_mem_of_mem_zipIdx hi))
  | some n, .lit s, path => by simp [checkItems,validItems]
  | some n, .obj ms, path => by simp [checkItems,validItems]
theorem checkProperties_eq_none : ∀ {properties : List (String × Node)} {v : Json} {path : String},
    checkProperties properties v path = none ↔ validProperties properties v = true
  | [], v, path => by simp [checkProperties,validProperties]
  | (key,sub)::rest, v, path => by
    simp only [checkProperties,validProperties,orElse_eq_none,Bool.and_eq_true,
      checkProperties_eq_none]
    refine and_congr_left fun _ => ?_
    cases v.get key with
    | none => simp
    | some x => exact check_eq_none
theorem checkBranches_count : ∀ {branches : List Node} {v : Json} {path : String},
    (checkBranches branches v path).count none = (validBranches branches v).count true
  | [], v, path => by simp [checkBranches,validBranches]
  | n::rest, v, path => by
    have head : check n v path = none ↔ n.valid v = true := check_eq_none
    simp only [checkBranches,validBranches,count_cons,checkBranches_count]
    by_cases h : n.valid v = true
    · simp [h,head.2 h]
    · simp [h,mt head.1 h]
theorem checkNot_eq_none : ∀ {n : Option Node} {v : Json} {path : String},
    checkNot n v path = none ↔ validNot n v = true
  | none, v, path => by simp [checkNot,validNot]
  | some n, v, path => by
    have h : check n v path = none ↔ n.valid v = true := check_eq_none
    by_cases hv : n.valid v = true
    · simp [checkNot,validNot,hv,h.2 hv]
    · simp [checkNot,validNot,hv,Option.isSome_iff_ne_none,mt h.1 hv]
end

end CircuitBreaker.Lifecycle
