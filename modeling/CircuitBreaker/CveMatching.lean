import Mathlib.Data.Char
import Mathlib.Data.List.Dedup
import Mathlib.Data.List.Lex
import Mathlib.Data.List.Sort
import Mathlib.Algebra.GroupWithZero.Nat

/-! Whether a vulnerability record applies to a product: a tree of CPE matches, evaluated with
three truth values. -/

namespace CircuitBreaker.CveMatching

abbrev Text := List Char

/-- What Python and SQLite know of characters: case folding and upper case of one, the value of a
decimal digit, percent decoding and SQLite's lower case of a text. -/
structure Tables where
  fold : Char → Text
  upper : Char → Text
  digit : Char → Option Nat
  unquote : Text → Text
  sqlLower : Text → Text

def Tables.casefold (u : Tables) (t : Text) : Text := t.flatMap u.fold

inductive Scheme where
  | dottedNumeric
  deriving DecidableEq

inductive Provenance where
  | inventory | operator

structure AssessmentIdentity where
  vendor : Option Text
  product : Option Text
  version : Option Text
  versionScheme : Option Scheme
  provenance : Provenance
  revision : Nat

inductive Truth where
  | yes | no | unknown
  deriving DecidableEq

inductive VersionResult where
  | isMatch | noMatch | unknown

/-- One `cpeMatch` entry; a bound that is absent is the empty text. -/
structure CpeMatch where
  criteria : Text
  vulnerable : Bool := true
  versionStartIncluding : Text := []
  versionStartExcluding : Text := []
  versionEndIncluding : Text := []
  versionEndExcluding : Text := []

/-- A node of a configuration; an operator that is absent is the empty text. -/
inductive Node where
  | node (operator : Text) (negate : Bool) (cpeMatch : List CpeMatch) (children : List Node)

structure Configuration where
  operator : Text := []
  nodes : List Node

structure Evidence where
  criteria : Text
  vendor : Option Text
  product : Option Text
  vulnerable : Bool
  versionResult : VersionResult
  reason : Option Text

structure MatchEvidence where
  result : Truth
  evidence : List Evidence
  limitations : List Text

def sortedSet (ts : List Text) : List Text := ts.dedup.insertionSort (· ≤ ·)

section Matching
variable (u : Tables)

/-- The numbers of a version that `^v?\d+(?:[._-]\d+)*$` matches. -/
def versionParts (t : Text) : Option (List Nat) :=
  let body := if t.head? = some 'v' then t.tail else t
  (body.splitOnP fun c => c = '.' || c = '_' || c = '-').mapM fun part =>
    if part = [] then none
    else (part.mapM u.digit).map fun ds => ds.foldl (fun n d => 10*n+d) 0

def padded (width : Nat) (ns : List Nat) : List Nat := ns ++ List.replicate (width-ns.length) 0

def compareVersions (scheme : Option Scheme) (candidate bound : Option Text) : Option Ordering :=
  match scheme, candidate, bound with
  | some .dottedNumeric, some candidate, some bound =>
    match versionParts u candidate, versionParts u bound with
    | some left, some right =>
      let width := max left.length right.length
      let (left,right) := (padded width left,padded width right)
      some (if left < right then .lt else if right < left then .gt else .eq)
    | _, _ => none
  | _, _, _ => none

def inferVersionScheme (version : Option Text) : Option Scheme :=
  if (version.bind (versionParts u)).isSome then some .dottedNumeric else none

structure Splitting where
  pieces : List Text := []
  current : Text := []
  escaped : Bool := false

def Splitting.step (s : Splitting) (c : Char) : Splitting :=
  if s.escaped then {s with current := s.current ++ [c], escaped := false}
  else if c = '\\' then {s with escaped := true}
  else if c = ':' then {s with pieces := s.pieces ++ [u.unquote s.current], current := []}
  else {s with current := s.current ++ [c]}

def splitCpe23 (criteria : Text) : List Text :=
  let s := criteria.foldl (Splitting.step u) {}
  s.pieces ++ [u.unquote (s.current ++ if s.escaped then ['\\'] else [])]

structure Cpe where
  part : Option Text
  vendor : Option Text
  product : Option Text
  version : Option Text

def parseCpe (criteria : Text) : Cpe :=
  let parts := splitCpe23 u criteria
  if parts.length < 6 ∨ parts[0]? ≠ some "cpe".toList ∨ parts[1]? ≠ some "2.3".toList then
    ⟨none,none,none,none⟩
  else
    let value (i : Nat) : Option Text := (parts[i]?).filter fun raw => raw ≠ [] && raw ≠ ['*']
    ⟨value 2,value 3,value 4,value 5⟩

def combine (values : List Truth) (operator : Text) : Truth :=
  if values = [] then .unknown
  else if operator = "AND".toList then
    if .no ∈ values then .no else if .unknown ∈ values then .unknown else .yes
  else if .yes ∈ values then .yes else if .unknown ∈ values then .unknown else .no

/-- One bound of a version: whether it is an upper one, and whether it is excluded. -/
structure Bound where
  value : Text
  upper : Bool
  exclusive : Bool

def CpeMatch.bounds (m : CpeMatch) : List Bound :=
  [⟨m.versionStartIncluding,false,false⟩,⟨m.versionStartExcluding,false,true⟩,
    ⟨m.versionEndIncluding,true,false⟩,⟨m.versionEndExcluding,true,true⟩]

def checkBounds (scheme : Option Scheme) (candidate : Option Text) :
    List Bound → VersionResult × Option Text
  | [] => (.isMatch,none)
  | bound :: rest =>
    if bound.value = [] then checkBounds scheme candidate rest
    else
      match compareVersions u scheme candidate (some bound.value) with
      | none => (.unknown,some "version_unsupported".toList)
      | some comparison =>
        let beyond := if bound.upper then Ordering.gt else .lt
        if comparison = beyond ∨ (bound.exclusive ∧ comparison = .eq) then (.noMatch,none)
        else checkBounds scheme candidate rest

def versionResult (m : CpeMatch) (identity : AssessmentIdentity) : VersionResult × Option Text :=
  match (parseCpe u m.criteria).version.filter (· ≠ ['-']) with
  | some exact_ =>
    match compareVersions u identity.versionScheme identity.version (some exact_) with
    | none => (.unknown,some "version_unsupported".toList)
    | some .eq => (.isMatch,none)
    | some _ => (.noMatch,none)
  | none =>
    if m.bounds.all (·.value = []) then (.isMatch,none)
    else if identity.version.getD [] = [] then (.unknown,some "version_missing".toList)
    else checkBounds u identity.versionScheme identity.version m.bounds

def VersionResult.truth : VersionResult → Truth
  | .isMatch => .yes
  | .noMatch => .no
  | .unknown => .unknown

def evaluateCpe (identity : AssessmentIdentity) (m : CpeMatch) : MatchEvidence :=
  let parsed := parseCpe u m.criteria
  let vendor := u.casefold (identity.vendor.getD [])
  let product := u.casefold (identity.product.getD [])
  let cpeVendor := u.casefold (parsed.vendor.getD [])
  let cpeProduct := u.casefold (parsed.product.getD [])
  let (result,reason) :=
    if (cpeVendor = [] ∨ cpeVendor = vendor) ∧ (cpeProduct = [] ∨ cpeProduct = product) then
      versionResult u m identity
    else if m.vulnerable then (.noMatch,none)
    else (.unknown,some "environment_prerequisite_unknown".toList)
  ⟨result.truth,[⟨m.criteria,parsed.vendor,parsed.product,m.vulnerable,result,reason⟩],reason.toList⟩

def gather (parts : List MatchEvidence) (result : Truth) : MatchEvidence :=
  ⟨result,parts.flatMap MatchEvidence.evidence,sortedSet (parts.flatMap MatchEvidence.limitations)⟩

def Truth.negate : Truth → Truth
  | .yes => .no
  | .no => .yes
  | .unknown => .unknown

def orOr (operator : Text) : Text := if operator = [] then "OR".toList else operator

mutual
def evaluateNode (leaf : CpeMatch → MatchEvidence) : Node → MatchEvidence
  | .node operator negate cpeMatch children =>
    let parts := cpeMatch.map leaf ++ evaluateNodes leaf children
    let result := combine (parts.map MatchEvidence.result) ((orOr operator).flatMap u.upper)
    gather parts (if negate then result.negate else result)
def evaluateNodes (leaf : CpeMatch → MatchEvidence) : List Node → List MatchEvidence
  | [] => []
  | node :: rest => evaluateNode leaf node :: evaluateNodes leaf rest
end

def evaluateConfiguration (leaf : CpeMatch → MatchEvidence) (config : Configuration) :
    MatchEvidence :=
  let nodes := evaluateNodes u leaf config.nodes
  gather nodes (combine (nodes.map MatchEvidence.result) (orOr config.operator))

def evaluateApplicability (configurations : List Configuration) (identity : AssessmentIdentity) :
    MatchEvidence :=
  let results := configurations.map (evaluateConfiguration u (evaluateCpe u identity))
  gather results (combine (results.map MatchEvidence.result) "OR".toList)

def identityKey (identity : AssessmentIdentity) :
    Option Text × Option Text × Option Text × Option Scheme :=
  ((identity.vendor.filter (· ≠ [])).map u.casefold,(identity.product.filter (· ≠ [])).map u.casefold,
    identity.version,identity.versionScheme)

theorem casefold_key (t : Option Text) :
    u.casefold (t.getD []) = ((t.filter (· ≠ [])).map u.casefold).getD [] := by
  cases t with
  | none => rfl
  | some t =>
    by_cases empty : t = []
    · subst empty
      rfl
    · simp [Option.filter,empty]

theorem evaluateApplicability_key {configurations : List Configuration} {i j : AssessmentIdentity}
    (h : identityKey u i = identityKey u j) :
    evaluateApplicability u configurations i = evaluateApplicability u configurations j := by
  simp only [identityKey,Prod.mk.injEq] at h
  obtain ⟨vendor,product,version,scheme⟩ := h
  have leaf : evaluateCpe u i = evaluateCpe u j := by
    funext m
    unfold evaluateCpe versionResult
    rw [casefold_key,casefold_key,casefold_key u j.vendor,casefold_key u j.product,vendor,product,
      version,scheme]
  rw [evaluateApplicability,evaluateApplicability,leaf]

end Matching

end CircuitBreaker.CveMatching
