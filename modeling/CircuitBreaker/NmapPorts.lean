import CircuitBreaker.ShellWords
import CircuitBreaker.VaultKey
import CircuitBreaker.TextWords
import Mathlib.Data.Finset.Sort
import Mathlib.Data.List.TakeWhile

/-! The port lists of a scan's nmap arguments: what the validator (core/nmap_args.py) lets
through, and what the admission of an agent's scan (services/discovery_admission.py) reads. -/

namespace CircuitBreaker.NmapPorts
open List
open ShellWords (Text)
open Vault (isSpace strip)

/-! core/nmap_args.py -/

def allowedFlags : List Text :=
  ["-sT","-sV","-F","--open","-T0","-T1","-T2","-T3","-T4","-T5","-O","--osscan-limit",
    "--osscan-guess","-A","-Pn"].map String.toList

def forbiddenChars : Text := ";|$`()><&\\".toList

inductive Refusal where
  | tooLong (most : Nat)
  | unbalanced
  | forbidden
  | portsMissing
  | portsMalformed
  | disallowed (tok : Text)
  deriving DecidableEq

def Refusal.text (repr : Text → String) : Refusal → String
  | .tooLong most => "nmap_arguments must be at most "++toString most++" characters"
  | .unbalanced => "Invalid nmap_arguments: unbalanced quotes or escapes"
  | .forbidden => "nmap_arguments may not contain ; | $ ` ( ) > < & or backslash"
  | .portsMissing => "nmap_arguments: -p requires a port list"
  | .portsMalformed =>
      "nmap_arguments: port list after -p must be digits, commas, hyphens only"
  | .disallowed tok => "nmap_arguments: disallowed token "++repr tok

def isForbidden (tok : Text) : Bool := tok.any (· ∈ forbiddenChars)

def isPortChar (c : Char) : Bool := c.isDigit || c = ',' || c = '-'

/-- What `_PORT_SPEC` matches of a token: its `$` stands before a line end, too. -/
def portList (tok : Text) : Text := if tok.getLast? = some '\n' then tok.dropLast else tok

def isPortSpec (tok : Text) : Bool := portList tok ≠ [] && (portList tok).all isPortChar

def portOption : Text := ['-','p']

/-- `_consume_tokens`, over all tokens. -/
def consumeTokens : List Text → Except Refusal (List Text)
  | [] => .ok []
  | tok::rest =>
      if isForbidden tok then .error .forbidden
      else if tok ∈ allowedFlags then (consumeTokens rest).map (tok::·)
      else if tok = portOption then
        match rest with
        | [] => .error .portsMissing
        | next::rest =>
            if isForbidden next then .error .forbidden
            else if isPortSpec next then (consumeTokens rest).map fun out => portOption::next::out
            else .error .portsMalformed
      else .error (.disallowed tok)

def validateNmapArguments (args : Option Text) (maxLength : Nat) : Except Refusal Text :=
  let s := strip (args.getD [])
  if s = [] then .ok "-T4 -F".toList
  else if maxLength < s.length then .error (.tooLong maxLength)
  else
    match ShellWords.split s with
    | none => .error .unbalanced
    | some tokens => (consumeTokens tokens).map fun out => [' '].intercalate out

/-! services/discovery_admission.py -/

/-- `-p\s*([0-9,\-]+)` at the start of a text. -/
def specAt : Text → Option Text
  | '-' :: 'p'::t =>
      let found := (t.dropWhile isSpace).takeWhile isPortChar
      if found = [] then none else some found
  | _ => none

/-- `_PORT_SPEC_RE.search` -/
def specSearch : Text → Option Text
  | [] => none
  | c::t => (specAt (c::t)).orElse fun _ => specSearch t

/-- `int`, of digits and hyphens. -/
def intOf : Text → Option Int
  | [] => none
  | '-'::ds => if ds ≠ [] && ds.all Char.isDigit then some (-Nat.ofDigitChars 10 ds 0) else none
  | d::ds => if (d::ds).all Char.isDigit then some (Nat.ofDigitChars 10 (d::ds) 0) else none

def fragments (spec : Text) : List Text := spec.splitOn ','

def boundsFrom (low high : Text) : Option (Int × Int) :=
  (intOf low).bind fun first =>
    (if high = [] then some first else intOf high).map fun last => (first,last)

def boundsOf (part : Text) : Option (Int × Int) :=
  boundsFrom (part.takeWhile (· ≠ '-')) ((part.dropWhile (· ≠ '-')).drop 1)

/-- `range(first, last + 1)` -/
def portsBetween (bounds : Int × Int) : List Int :=
  (List.range (bounds.2+1-bounds.1).toNat).map fun i : Nat => bounds.1+(i : Int)

def fragmentPorts (part : Text) : List Int := ((boundsOf part).map portsBetween).getD []

def readFragments (args : Option Text) : List Text :=
  (specSearch (args.getD [])).toList.flatMap fragments

def iterRequestedTcpPorts (args : Option Text) : List Int := (readFragments args).flatMap fragmentPorts

def firstUngrantedTcpPort (args : Option Text) (granted : Finset Int) : Option Int :=
  (iterRequestedTcpPorts args).find? (· ∉ granted)

def requestedTcpPorts (args : Option Text) (granted : Finset Int) : Finset Int :=
  ((iterRequestedTcpPorts args).filter (· ∈ granted)).toFinset

/-- `_request_ports` of services/agent_discovery.py. -/
def requestPorts (args : Option Text) (granted : Finset Int) : List Int :=
  let requested := requestedTcpPorts args granted
  if requested = ∅ then granted.sort (· ≤ ·) else requested.sort (· ≤ ·)

/-! What the arguments say. -/

def portLists : List Text → List Text
  | [] => []
  | [_] => []
  | tok::next::rest =>
      if tok = portOption then portList next::portLists rest else portLists (next::rest)

/-- The lists of every `-p` of the arguments. -/
def listsOf (args : Option Text) : List Text :=
  portLists ((ShellWords.split (strip (args.getD []))).getD [])

def numberOf (t : Text) : Option Nat :=
  if t ≠ [] && t.all Char.isDigit then some (Nat.ofDigitChars 10 t 0) else none

inductive Written : Text → Int → Prop where
  | port {t : Text} {n : Nat} (ht : numberOf t = some n) : Written t n
  | range {s t : Text} {a : Nat} {b p : Int} (hs : numberOf s = some a) (ht : intOf t = some b)
      (low : a ≤ p) (high : p ≤ b) : Written (s++ '-'::t) p
  | start {s : Text} {a : Nat} (hs : numberOf s = some a) : Written (s++['-']) a

def lastPort : Int := 65535

inductive Names : Text → Int → Prop where
  | written {t : Text} {p : Int} (h : Written t p) : Names t p
  | above {s : Text} {a : Nat} {p : Int} (hs : numberOf s = some a) (low : a < p)
      (high : p ≤ lastPort) : Names (s++['-']) p
  | below {t : Text} {b : Nat} {p : Int} (ht : numberOf t = some b) (low : 1 ≤ p) (high : p ≤ b) :
      Names ('-'::t) p
  | all {p : Int} (low : 1 ≤ p) (high : p ≤ lastPort) : Names ['-'] p

def Named (args : Option Text) (p : Int) : Prop :=
  ∃ l ∈ listsOf args, ∃ f ∈ fragments l, Names f p

structure Complete (args : Option Text) : Prop where
  kept : (readFragments args).filter (fragmentPorts · ≠ []) = (listsOf args).flatMap fragments
  admits : ∀ granted, firstUngrantedTcpPort args granted = none ↔ ∀ p, Named args p → p ∈ granted
  requested : ∀ granted, firstUngrantedTcpPort args granted = none →
    ∀ p, p ∈ requestedTcpPorts args granted ↔ Named args p
  sent : ∀ granted, firstUngrantedTcpPort args granted = none → listsOf args ≠ [] →
    ∀ p, p ∈ requestPorts args granted ↔ Named args p

/-- There is one list at most, and the search finds it whole; its fragments are `a`, `a-` and
`a-b`, a range's ends in order; and the ports above an `a-` are named by other fragments. -/
structure Plain (args : Option Text) : Prop where
  whole : listsOf args = (specSearch (args.getD [])).toList
  written : ∀ l ∈ listsOf args, ∀ f ∈ fragments l, ∃ p, Written f p
  covered : ∀ l ∈ listsOf args, ∀ s a, numberOf s = some a → s++['-'] ∈ fragments l →
    ∀ p, (a : Int) < p → p ≤ lastPort → ∃ f ∈ fragments l, Written f p

/-! The ports of one fragment. -/

variable {t : Text}

theorem numberOf_ne_nil {n : Nat} (h : numberOf t = some n) : t ≠ [] := by
  rintro rfl
  cases h

theorem numberOf_no_hyphen {n : Nat} (h : numberOf t = some n) : '-' ∉ t := by
  unfold numberOf at h
  split at h
  case isTrue digits =>
    simp only [Bool.and_eq_true,all_eq_true] at digits
    exact fun hm => absurd (digits.2 _ hm) (by decide)
  case isFalse => cases h

theorem intOf_no_hyphen (h : '-' ∉ t) : intOf t = (numberOf t).map (Nat.cast : Nat → Int) := by
  cases t with
  | nil => rfl
  | cons d ds =>
    have hd : d ≠ '-' := fun hd => h (hd ▸ mem_cons_self)
    unfold intOf numberOf
    split
    · contradiction
    case h_2 heq => cases heq; exact absurd rfl hd
    case h_3 heq =>
      cases heq
      simp only [ne_eq,reduceCtorEq,not_false_eq_true,decide_true,Bool.true_and]
      split <;> rfl

variable {p : Int}

theorem mem_portsBetween {bounds : Int × Int} :
    p ∈ portsBetween bounds ↔ bounds.1 ≤ p ∧ p ≤ bounds.2 := by
  simp only [portsBetween,mem_map,mem_range]
  constructor
  · rintro ⟨i,hi,rfl⟩
    omega
  · intro h
    exact ⟨(p-bounds.1).toNat,by omega,by omega⟩

theorem hyphen_split {s u v : Text} (hs : '-' ∉ s) (hu : '-' ∉ u) (h : s++ '-'::t = u++ '-'::v) :
    s = u ∧ t = v := by
  induction s generalizing u with
  | nil =>
    cases u with
    | nil => exact ⟨rfl,(List.cons.inj h).2⟩
    | cons c u => exact absurd ((List.cons.inj h).1 ▸ mem_cons_self) hu
  | cons d s ih =>
    cases u with
    | nil => exact absurd ((List.cons.inj h).1 ▸ mem_cons_self) hs
    | cons c u =>
      obtain ⟨hd,rest⟩ := List.cons.inj h
      obtain ⟨rfl,rfl⟩ := ih (fun hm => hs (mem_cons_of_mem _ hm))
        (fun hm => hu (mem_cons_of_mem _ hm)) rest
      exact ⟨by rw [hd],rfl⟩

theorem written_no_hyphen (h : '-' ∉ t) :
    Written t p ↔ ∃ n, numberOf t = some n ∧ p = n := by
  constructor
  · intro hw
    cases hw with
    | port ht => exact ⟨_,ht,rfl⟩
    | range | start => simp at h
  · rintro ⟨n,ht,rfl⟩
    exact .port ht

theorem written_range {s : Text} (hs : '-' ∉ s) : Written (s++ '-'::t) p ↔
    ∃ a, numberOf s = some a ∧
      ((t = [] ∧ p = a) ∨ ∃ b, intOf t = some b ∧ (a : Int) ≤ p ∧ p ≤ b) := by
  constructor
  · intro hw
    generalize hf : s++ '-'::t = f at hw
    cases hw with
    | port ht => exact absurd (by simp [←hf]) (numberOf_no_hyphen ht)
    | range hn ht low high =>
      obtain ⟨rfl,rfl⟩ := hyphen_split hs (numberOf_no_hyphen hn) hf
      exact ⟨_,hn,.inr ⟨_,ht,low,high⟩⟩
    | start hn =>
      obtain ⟨rfl,rfl⟩ := hyphen_split hs (numberOf_no_hyphen hn) hf
      exact ⟨_,hn,.inl ⟨rfl,rfl⟩⟩
  · rintro ⟨a,hn,⟨rfl,rfl⟩ | ⟨b,ht,low,high⟩⟩
    · exact .start hn
    · exact .range hn ht low high

theorem mem_fragmentPorts {f : Text} : p ∈ fragmentPorts f ↔ Written f p := by
  have parts : f = f.takeWhile (· ≠ '-')++f.dropWhile (· ≠ '-') := takeWhile_append_dropWhile.symm
  have none : '-' ∉ f.takeWhile (· ≠ '-') := fun hm => absurd (mem_takeWhile_imp hm) (by simp)
  have ports : p ∈ fragmentPorts f ↔ ∃ bounds, boundsOf f = some bounds ∧ bounds.1 ≤ p ∧ p ≤ bounds.2 := by
    unfold fragmentPorts
    cases boundsOf f with
    | none => simp
    | some bounds => simp [mem_portsBetween]
  rw [ports]
  rw [boundsOf]
  generalize f.takeWhile (· ≠ '-') = low at parts none ⊢
  cases hr : f.dropWhile (· ≠ '-') with
  | nil =>
    rw [hr,append_nil] at parts
    subst parts
    rw [written_no_hyphen none,boundsFrom,intOf_no_hyphen none]
    simp only [drop_nil,if_pos]
    cases numberOf f with
    | none => simp
    | some n => simp; omega
  | cons c high =>
    have hc : c = '-' := by
      have head := head?_dropWhile_not (fun c => decide (c ≠ '-')) f
      rw [hr] at head
      simpa using head
    rw [hr,hc] at parts
    subst parts
    rw [written_range none,boundsFrom,intOf_no_hyphen none]
    simp only [drop_succ_cons,drop_zero]
    cases hn : numberOf low with
    | none => simp
    | some a =>
      by_cases hh : high = []
      · subst hh
        simp [intOf]; omega
      · cases intOf high with
        | none | some b => simp [hh]

/-! What the walk answers. -/

variable {args : Option Text}

theorem mem_iter :
    p ∈ iterRequestedTcpPorts args ↔ ∃ f ∈ readFragments args, Written f p := by
  simp only [iterRequestedTcpPorts,mem_flatMap,mem_fragmentPorts]

theorem firstUngranted_eq_none {granted : Finset Int} :
    firstUngrantedTcpPort args granted = none ↔ ∀ p ∈ iterRequestedTcpPorts args, p ∈ granted := by
  simp [firstUngrantedTcpPort]

theorem mem_requested {granted : Finset Int} :
    p ∈ requestedTcpPorts args granted ↔ p ∈ iterRequestedTcpPorts args ∧ p ∈ granted := by
  simp [requestedTcpPorts]

theorem fragmentPorts_ne_nil {f : Text} : fragmentPorts f ≠ [] ↔ ∃ p, Written f p := by
  simp only [←mem_fragmentPorts]
  exact ⟨exists_mem_of_ne_nil _,fun ⟨_,hp⟩ => ne_nil_of_mem hp⟩

theorem fragments_ne_nil (l : Text) : fragments l ≠ [] := splitOn_ne_nil ',' l

theorem complete_iff : Complete args ↔
    (readFragments args).filter (fragmentPorts · ≠ []) = (listsOf args).flatMap fragments ∧
      ∀ p, p ∈ iterRequestedTcpPorts args ↔ Named args p := by
  constructor
  · intro h
    refine ⟨h.kept,fun p => ?_⟩
    have named : ∀ q, Named args q → q ∈ iterRequestedTcpPorts args := by
      have all := (h.admits (iterRequestedTcpPorts args).toFinset).1
        (firstUngranted_eq_none.2 fun q hq => mem_toFinset.2 hq)
      exact fun q hq => mem_toFinset.1 (all q hq)
    refine ⟨fun walked => ?_,named p⟩
    -- the grant of all walked ports but this one
    by_contra unnamed
    have granted := (h.admits ((iterRequestedTcpPorts args).toFinset.erase p)).2 fun q hq =>
      Finset.mem_erase.2 ⟨fun hqp => unnamed (hqp ▸ hq),mem_toFinset.2 (named q hq)⟩
    exact Finset.notMem_erase p _ (firstUngranted_eq_none.1 granted p walked)
  · rintro ⟨kept,walked⟩
    have requested : ∀ granted, firstUngrantedTcpPort args granted = none →
        ∀ p, p ∈ requestedTcpPorts args granted ↔ Named args p := by
      intro granted admitted p
      rw [mem_requested,walked]
      exact ⟨And.left,fun hp => ⟨hp,firstUngranted_eq_none.1 admitted p ((walked p).2 hp)⟩⟩
    refine ⟨kept,fun granted => ?_,requested,?_⟩
    · simp only [firstUngranted_eq_none,walked]
    · intro granted admitted lists p
      obtain ⟨l,hl⟩ := exists_mem_of_ne_nil _ lists
      obtain ⟨f,hf⟩ := exists_mem_of_ne_nil _ (fragments_ne_nil l)
      have read : f ∈ (readFragments args).filter (fragmentPorts · ≠ []) :=
        kept ▸ mem_flatMap.2 ⟨l,hl,hf⟩
      obtain ⟨q,hq⟩ := exists_mem_of_ne_nil _ (of_decide_eq_true (mem_filter.1 read).2)
      have there : q ∈ requestedTcpPorts args granted := by
        have here : q ∈ iterRequestedTcpPorts args :=
          mem_flatMap.2 ⟨f,(mem_filter.1 read).1,hq⟩
        exact mem_requested.2 ⟨here,firstUngranted_eq_none.1 admitted q here⟩
      rw [requestPorts,if_neg (Finset.ne_empty_of_mem there),Finset.mem_sort]
      exact requested granted admitted p

theorem not_written_hyphen : ¬Written ('-'::t) p := by
  intro h
  obtain ⟨a,ha,-⟩ := (written_range (s := []) (not_mem_nil)).1 h
  exact numberOf_ne_nil ha rfl

theorem Plain.complete {args : Option Text} (h : Plain args) : Complete args := by
  have read : readFragments args = (listsOf args).flatMap fragments := by rw [h.whole,readFragments]
  refine complete_iff.2 ⟨?_,fun p => ?_⟩
  · rw [read,filter_eq_self]
    intro f hf
    obtain ⟨l,hl,hf⟩ := mem_flatMap.1 hf
    exact decide_eq_true (fragmentPorts_ne_nil.2 (h.written l hl f hf))
  · simp only [mem_iter,read,mem_flatMap]
    constructor
    · rintro ⟨f,⟨l,hl,hf⟩,hw⟩
      exact ⟨l,hl,f,hf,.written hw⟩
    · rintro ⟨l,hl,f,hf,hn⟩
      cases hn with
      | written hw => exact ⟨f,⟨l,hl,hf⟩,hw⟩
      | above hs low high =>
        obtain ⟨g,hg,hw⟩ := h.covered l hl _ _ hs hf p low high
        exact ⟨g,⟨l,hl,hg⟩,hw⟩
      | below | all =>
        obtain ⟨q,hq⟩ := h.written l hl _ hf
        exact absurd hq not_written_hyphen

/-! What the search finds begins a list of the arguments. -/

variable {c : Char}

theorem portChar_not_space (h : isPortChar c = true) : isSpace c = false := by
  simp only [isPortChar,Bool.or_eq_true,decide_eq_true_eq,Char.isDigit,Bool.and_eq_true] at h
  obtain ((⟨low,high⟩ | rfl) | rfl) := h
  · have low' : 48 ≤ c.toNat := UInt32.le_iff_toNat_le.1 low
    have high' : c.toNat ≤ 57 := UInt32.le_iff_toNat_le.1 high
    simp only [isSpace,Bool.or_eq_false_iff,Bool.and_eq_false_iff,decide_eq_false_iff_not,
      beq_eq_false_iff_ne]
    omega
  · decide
  · decide

variable {m : Text}

theorem specAt_eq_some (h : specAt t = some m) : ∃ ws rest,
    t = portOption++(ws++(m++rest)) ∧ (∀ c ∈ ws, isSpace c = true) ∧ m ≠ [] ∧
      ∀ c ∈ m, isPortChar c = true := by
  unfold specAt at h
  split at h
  case h_1 u =>
    simp only [] at h
    split at h <;> cases h
    rename_i found
    refine ⟨u.takeWhile isSpace,(u.dropWhile isSpace).dropWhile isPortChar,?_,
      fun c hc => mem_takeWhile_imp hc,found,fun c hc => mem_takeWhile_imp hc⟩
    rw [takeWhile_append_dropWhile,takeWhile_append_dropWhile]
    rfl
  case h_2 => cases h

theorem specSearch_eq_some (h : specSearch t = some m) : ∃ before ws rest,
    t = before++(portOption++(ws++(m++rest))) ∧ (∀ c ∈ ws, isSpace c = true) ∧ m ≠ [] ∧
      ∀ c ∈ m, isPortChar c = true := by
  induction t with
  | nil => cases h
  | cons c t ih =>
    rw [specSearch] at h
    cases here : specAt (c::t) with rw [here] at h
    | some found =>
      cases h
      obtain ⟨ws,rest,text,facts⟩ := specAt_eq_some here
      exact ⟨[],ws,rest,text,facts⟩
    | none =>
      obtain ⟨before,ws,rest,text,facts⟩ := ih h
      exact ⟨c::before,ws,rest,by rw [text]; rfl,facts⟩

theorem specAt_space (h : isSpace c = true) : specAt (c::t) = none := by
  unfold specAt
  split
  case h_1 heq =>
    cases heq
    exact absurd h (by decide)
  case h_2 => rfl

variable {ws : Text}

theorem specSearch_spaces_append (h : ∀ c ∈ ws, isSpace c = true) :
    specSearch (ws++t) = specSearch t := by
  induction ws with
  | nil => rfl
  | cons c ws ih =>
    rw [cons_append,specSearch,specAt_space (h c mem_cons_self)]
    exact ih fun d hd => h d (mem_cons_of_mem _ hd)

theorem takeWhile_spaces (h : ∀ c ∈ ws, isSpace c = true) :
    ws.takeWhile isPortChar = [] := by
  cases ws with
  | nil => rfl
  | cons c ws =>
    refine takeWhile_cons_of_neg fun hc => ?_
    have := portChar_not_space hc
    rw [h c mem_cons_self] at this
    cases this

theorem found_append_spaces (h : ∀ c ∈ ws, isSpace c = true) :
    ((t++ws).dropWhile isSpace).takeWhile isPortChar =
      (t.dropWhile isSpace).takeWhile isPortChar := by
  rw [dropWhile_append]
  split
  case isTrue empty =>
    rw [isEmpty_iff.1 empty,dropWhile_eq_nil_iff.2 h]
  case isFalse =>
    rw [takeWhile_append,takeWhile_spaces h,append_nil]
    split
    case isTrue whole => exact ( takeWhile_prefix _).eq_of_length whole |>.symm
    case isFalse => rfl

theorem specAt_single (c : Char) : specAt [c] = none := by
  unfold specAt
  split
  case h_1 heq => cases heq
  case h_2 => rfl

theorem specAt_append_spaces (h : ∀ d ∈ ws, isSpace d = true) :
    specAt (c::(t++ws)) = specAt (c::t) := by
  cases t with
  | nil =>
    cases ws with
    | nil => rfl
    | cons d ws =>
      have hd : d ≠ 'p' := by
        rintro rfl
        exact absurd (h _ mem_cons_self) (by decide)
      rw [nil_append,specAt_single]
      unfold specAt
      split
      case h_1 heq => cases heq; exact absurd rfl hd
      case h_2 => rfl
  | cons d t =>
    by_cases both : c = '-' ∧ d = 'p'
    · obtain ⟨rfl,rfl⟩ := both
      simp only [cons_append,specAt,found_append_spaces h]
    · unfold specAt
      split
      case h_1 heq => cases heq; exact absurd ⟨rfl,rfl⟩ both
      case h_2 =>
        split
        case h_1 heq => cases heq; exact absurd ⟨rfl,rfl⟩ both
        case h_2 => rfl

theorem specSearch_append_spaces (h : ∀ c ∈ ws, isSpace c = true) :
    specSearch (t++ws) = specSearch t := by
  induction t with
  | nil => simpa using specSearch_spaces_append (t := []) h
  | cons c t ih => rw [cons_append,specSearch,specSearch,specAt_append_spaces h,ih]

theorem specSearch_strip (t : Text) : specSearch (strip t) = specSearch t := by
  have lead : specSearch (t.dropWhile isSpace) = specSearch t := by
    conv_rhs => rw [←takeWhile_append_dropWhile (p := isSpace) (l := t)]
    exact (specSearch_spaces_append fun c hc => mem_takeWhile_imp hc).symm
  rw [←lead,strip]
  generalize t.dropWhile isSpace = u
  have parts : u = (u.reverse.dropWhile isSpace).reverse++(u.reverse.takeWhile isSpace).reverse := by
    rw [←reverse_append,takeWhile_append_dropWhile,reverse_reverse]
  conv_rhs => rw [parts]
  exact (specSearch_append_spaces fun c hc => mem_takeWhile_imp (mem_reverse.1 hc)).symm

inductive Accepted : List Text → Prop where
  | nil : Accepted []
  | flag {tok : Text} {rest : List Text} (h : tok ∈ allowedFlags) (more : Accepted rest) :
      Accepted (tok::rest)
  | ports {next : Text} {rest : List Text} (h : isPortSpec next = true) (more : Accepted rest) :
      Accepted (portOption::next::rest)

variable {toks : List Text}

theorem consumeTokens_accepted {out : List Text} (h : consumeTokens toks = .ok out) :
    Accepted toks := by
  fun_induction consumeTokens toks generalizing out with
  | case1 => exact .nil
  | case3 tok rest allowed flag ih =>
    cases hr : consumeTokens rest with
    | ok more => exact .flag flag (ih hr)
    | error => simp [hr,Except.map] at h
  | case6 next rest _ spec _ _ ih =>
    cases hr : consumeTokens rest with
    | ok more => exact .ports spec (ih hr)
    | error => simp [hr,Except.map] at h
  | _ => cases h

theorem no_p_of_spec (h : isPortSpec t = true) : 'p' ∉ t := by
  unfold isPortSpec portList at h
  simp only [Bool.and_eq_true,all_eq_true] at h
  intro hp
  split at h
  case isTrue last =>
    obtain ⟨u,hu⟩ := getLast?_eq_some_iff.1 last
    rw [hu,dropLast_concat] at h
    rw [hu] at hp
    cases mem_append.1 hp with
    | inl hin => exact absurd (h.2 _ hin) (by decide)
    | inr hin => exact absurd (mem_singleton.1 hin) (by decide)
  case isFalse => exact absurd (h.2 _ hp) (by decide)

theorem Accepted.option (h : Accepted toks) (ht : t ∈ toks)
    (inside : portOption <:+: t) : t = portOption := by
  have flags : ∀ f ∈ allowedFlags, ¬portOption <:+: f := by decide
  induction h with
  | nil => cases ht
  | flag hf _ ih =>
    cases mem_cons.1 ht with
    | inl here => exact absurd inside (flags t (here ▸ hf))
    | inr there => exact ih there
  | ports hs _ ih =>
    cases mem_cons.1 ht with
    | inl here => exact here
    | inr there =>
      cases mem_cons.1 there with
      | inl here =>
        refine absurd (inside.subset ?_) (no_p_of_spec (here ▸ hs))
        decide
      | inr there => exact ih there

theorem portLists_flag {tok : Text} (h : tok ∈ allowedFlags) (rest : List Text) :
    portLists (tok::rest) = portLists rest := by
  have flags : ∀ f ∈ allowedFlags, f ≠ portOption := by decide
  cases rest with
  | nil => rfl
  | cons next rest => rw [portLists,if_neg (flags tok h)]

theorem Accepted.spec {toks : List Text} (h : Accepted toks) {before after : List Text} {t : Text}
    (ht : toks = before++portOption::t::after) :
    isPortSpec t = true ∧ portList t ∈ portLists toks := by
  have flags : portOption ∉ allowedFlags := by decide
  induction h generalizing before with
  | nil => simp at ht
  | flag hf _ ih =>
    cases before with
    | nil => exact absurd ((List.cons.inj ht).1 ▸ hf) flags
    | cons b before =>
      obtain ⟨spec,there⟩ := ih (List.cons.inj ht).2
      exact ⟨spec,by rwa [portLists_flag hf]⟩
  | @ports next rest hs _ ih =>
    have lists : portLists (portOption::next::rest) = portList next::portLists rest := by
      rw [portLists,if_pos rfl]
    rw [lists]
    cases before with
    | nil =>
      obtain ⟨rfl,-⟩ := List.cons.inj (List.cons.inj ht).2
      exact ⟨hs,mem_cons_self⟩
    | cons b before =>
      cases before with
      | nil =>
        obtain ⟨rfl,-⟩ := List.cons.inj (List.cons.inj ht).2
        exact absurd hs (by decide)
      | cons c before =>
        obtain ⟨spec,there⟩ := ih (List.cons.inj (List.cons.inj ht).2).2
        exact ⟨spec,mem_cons_of_mem _ there⟩

/-! The lexer at the option and at the list behind it. -/

open ShellWords (Lexer Mode isBlank)

def isPlain (c : Char) : Bool := c ≠ '\'' && c ≠ '"' && c ≠ '\\'

theorem portChar_plain (h : isPortChar c = true) : isPlain c = true ∧ isBlank c = false := by
  constructor
  · by_contra hc
    simp only [isPlain,Bool.and_eq_true,decide_eq_true_eq,not_and_or,not_not] at hc
    obtain ((rfl | rfl) | rfl) := hc <;> exact absurd h (by decide)
  · by_contra hc
    simp only [isBlank,Bool.not_eq_false,Bool.or_eq_true,decide_eq_true_eq] at hc
    obtain (((rfl | rfl) | rfl) | rfl) := hc <;> exact absurd h (by decide)

theorem space_plain (h : isSpace c = true) : isPlain c = true := by
  by_contra hc
  simp only [isPlain,Bool.and_eq_true,decide_eq_true_eq,not_and_or,not_not] at hc
  obtain ((rfl | rfl) | rfl) := hc <;> exact absurd h (by decide)

def Inside (s : Lexer) : Prop := s.mode = .word ∨ s.mode = .single ∨ s.mode = .double

variable {s : Lexer} {words : List Text} {maxLength : Nat} {out : Text}

theorem Inside.not_space (h : Inside s) : s.mode ≠ .space := by
  rintro hm
  obtain h | h | h := h <;> rw [hm] at h <;> cases h

theorem step_inside {s : Lexer} {c : Char} (hs : Inside s) (plain : isPlain c = true)
    (blank : s.mode = .word → isBlank c = false) :
    Inside (s.step c) ∧ (s.step c).token = s.token++[c] ∧ (s.step c).words = s.words := by
  simp only [isPlain,Bool.and_eq_true,decide_eq_true_eq] at plain
  obtain ⟨⟨single,double⟩,escape⟩ := plain
  obtain hm | hm | hm := hs
  · simp [Lexer.step,hm,blank hm,escape,single,double,Lexer.take,Inside]
  · simp [Lexer.step,hm,single,Lexer.take,Inside]
  · simp [Lexer.step,hm,double,escape,Lexer.take,Inside]

theorem run_inside (hs : Inside s) (plain : ∀ c ∈ t, isPlain c = true ∧ isBlank c = false) :
    Inside (s.run t) ∧ (s.run t).token = s.token++t ∧ (s.run t).words = s.words := by
  induction t generalizing s with
  | nil => exact ⟨hs,(append_nil _).symm,rfl⟩
  | cons c t ih =>
    obtain ⟨hp,hb⟩ := plain c mem_cons_self
    obtain ⟨inside,token,words⟩ := step_inside hs hp fun _ => hb
    obtain ⟨inside',token',words'⟩ := ih inside fun d hd => plain d (mem_cons_of_mem _ hd)
    exact ⟨inside',by rw [Lexer.run_cons,token',token,append_assoc]; rfl,by
      rw [Lexer.run_cons,words',words]⟩

theorem step_begins (s : Lexer) {c : Char} (plain : isPlain c = true) (blank : isBlank c = false) :
    Inside (s.step c) ∧ ∃ before, (s.step c).token = before++[c] := by
  by_cases hs : Inside s
  · obtain ⟨inside,token,-⟩ := step_inside hs plain fun _ => blank
    exact ⟨inside,_,token⟩
  · simp only [isPlain,Bool.and_eq_true,decide_eq_true_eq] at plain
    obtain ⟨⟨single,double⟩,escape⟩ := plain
    unfold Lexer.step
    cases hm : s.mode with
    | space => exact ⟨.inl (by simp [blank,escape,single,double]),[],by simp [blank,escape,single,double]⟩
    | word => exact absurd (.inl hm) hs
    | single => exact absurd (.inr (.inl hm)) hs
    | double => exact absurd (.inr (.inr hm)) hs
    | escape => exact ⟨.inl rfl,s.token,rfl⟩
    | escapeDouble => exact ⟨.inr (.inr rfl),s.token++['\\'],by simp [Lexer.take,escape,double]⟩

theorem run_option (s : Lexer) :
    Inside (s.run portOption) ∧ ∃ before, (s.run portOption).token = before++portOption := by
  obtain ⟨hyphen,before,token⟩ := @step_begins s '-' (by decide) (by decide)
  obtain ⟨inside,token',-⟩ := @step_inside _ 'p' hyphen (by decide) fun _ => by decide
  exact ⟨inside,before,by rw [portOption,Lexer.run_cons,Lexer.run_cons,Lexer.run_nil,token',token]; simp⟩

theorem run_blanks {bs : Text} (h : ∀ c ∈ bs, isBlank c = true) :
    ({ words := words } : Lexer).run bs = { words := words } := by
  induction bs with
  | nil => rfl
  | cons c bs ih =>
    have step : ({ words := words } : Lexer).step c = { words := words } := by
      simp only [Lexer.step,h c mem_cons_self,if_pos]
      rfl
    rw [Lexer.run_cons,step]
    exact ih fun d hd => h d (mem_cons_of_mem _ hd)

theorem step_first (plain : isPlain c = true)
    (blank : isBlank c = false) : ({ words := words } : Lexer).step c =
      { words := words, mode := .word, token := [c] } := by
  simp only [isPlain,Bool.and_eq_true,decide_eq_true_eq] at plain
  obtain ⟨⟨single,double⟩,escape⟩ := plain
  simp [Lexer.step,blank,escape,single,double]

theorem prefix_portList (h : m <+: t) (plain : ∀ c ∈ m, isPortChar c = true) :
    m <+: portList t := by
  obtain ⟨more,rfl⟩ := h
  unfold portList
  split
  case isTrue last =>
    cases more with
    | nil =>
      rw [append_nil] at last
      exact absurd (plain _ (mem_of_getLast? last)) (by decide)
    | cons c more =>
      rw [dropLast_append_of_ne_nil (cons_ne_nil _ _)]
      exact prefix_append _ _
  case isFalse => exact prefix_append _ _

theorem spec_head (h : isPortSpec (c::t) = true) : isPortChar c = true := by
  unfold isPortSpec portList at h
  simp only [Bool.and_eq_true,all_eq_true,decide_eq_true_eq] at h
  split at h
  · cases t with
    | nil => exact absurd rfl h.1
    | cons d t => exact h.2 c (by simp)
  · exact h.2 c mem_cons_self

theorem Accepted.not_longer (acc : Accepted toks) {before : Text} (inside : Inside s) (token : s.token = before++portOption) (hp : isPlain c = true)
    (hb : s.mode = .word → isBlank c = false) (h : ((s.step c).run t).finish = some toks) :
    False := by
  obtain ⟨inside',token',-⟩ := step_inside inside hp hb
  have long : (s.step c).token ≠ [] := by simp [token']
  obtain ⟨more,others,words⟩ := Lexer.run_reading inside'.not_space long h
  have there : (s.step c).token++more ∈ toks := by rw [words]; simp
  have part : portOption <:+: (s.step c).token++more :=
    ⟨before,[c]++more,by rw [token',token]; simp⟩
  have whole := congrArg List.length (acc.option there part)
  simp only [token',token,length_append,length_cons,length_nil] at whole
  omega

theorem Accepted.begins (acc : Accepted toks)
    {before rest : Text} (spaces : ∀ c ∈ ws, isSpace c = true) (found : m ≠ [])
    (ports : ∀ c ∈ m, isPortChar c = true)
    (h : (({ words := words++[before++portOption] } : Lexer).run (ws++(m++rest))).finish =
      some toks) : ∃ l ∈ portLists toks, m <+: l := by
  have behind : ∀ {t more others}, toks = (words++[before++portOption])++(t++more)::others →
      isPortSpec (t++more) = true ∧ portList (t++more) ∈ portLists toks := by
    intro t more others final
    have option : before++portOption = portOption := by
      refine acc.option ?_ ⟨before,[],by simp⟩
      rw [final]
      simp
    refine @Accepted.spec _ acc words others _ ?_
    rw [final,option,append_assoc]
    rfl
  generalize words++[before++portOption] = words at h behind
  rw [←takeWhile_append_dropWhile (p := isBlank) (l := ws),append_assoc,
    Lexer.run_append,run_blanks fun c hc => mem_takeWhile_imp hc] at h
  cases hr : ws.dropWhile isBlank with
  | nil =>
    obtain ⟨p,m,rfl⟩ := exists_cons_of_ne_nil found
    obtain ⟨plain,blank⟩ := portChar_plain (ports p mem_cons_self)
    rw [hr,nil_append,cons_append,Lexer.run_cons,step_first plain blank, Lexer.run_append] at h
    obtain ⟨inside',token',words'⟩ := run_inside (s := ⟨.word,[p],false,words⟩) (t := m) (.inl rfl)
      fun c hc => portChar_plain (ports c (mem_cons_of_mem _ hc))
    have long : ((⟨.word,[p],false,words⟩ : Lexer).run m).token ≠ [] := by simp [token']
    obtain ⟨more,others,final⟩ := Lexer.run_reading inside'.not_space long h
    rw [token',words'] at final
    obtain ⟨-,there⟩ := behind final
    exact ⟨_,there,prefix_portList (prefix_append _ _) ports⟩
  | cons c others =>
    -- other white space would begin the word behind the option
    have stays : isBlank c = false := by
      have head := head?_dropWhile_not isBlank ws
      rw [hr] at head
      simpa using head
    have hc : isSpace c = true :=
      spaces c ((dropWhile_suffix isBlank).subset (hr ▸ mem_cons_self))
    rw [hr,cons_append,Lexer.run_cons,step_first (space_plain hc) stays] at h
    obtain ⟨more,others,final⟩ := Lexer.run_reading (s := ⟨.word,[c],false,words⟩)
      nofun (cons_ne_nil _ _) h
    obtain ⟨spec,-⟩ := behind final
    have nospace := portChar_not_space (spec_head spec)
    rw [hc] at nospace
    cases nospace

theorem Accepted.found (acc : Accepted toks) {rest : Text}
    (spaces : ∀ c ∈ ws, isSpace c = true) (found : m ≠ []) (ports : ∀ c ∈ m, isPortChar c = true)
    (h : (s.run (portOption++(ws++(m++rest)))).finish = some toks) :
    ∃ l ∈ portLists toks, m <+: l := by
  rw [Lexer.run_append] at h
  obtain ⟨inside,before,token⟩ := run_option s
  generalize s.run portOption = s at h inside token
  cases ws with
  | nil =>
    obtain ⟨p,m,rfl⟩ := exists_cons_of_ne_nil found
    obtain ⟨plain,blank⟩ := portChar_plain (ports p mem_cons_self)
    exact (acc.not_longer inside token plain (fun _ => blank) h).elim
  | cons b ws =>
    have hb := spaces b mem_cons_self
    by_cases ended : s.mode = .word ∧ isBlank b = true
    · obtain ⟨hm,blank⟩ := ended
      have nonempty : s.token ≠ [] := by
        rw [token]
        exact append_ne_nil_of_right_ne_nil _ (cons_ne_nil _ _)
      rw [cons_append,Lexer.run_cons,Lexer.step_word_blank hm nonempty blank,token] at h
      exact acc.begins (fun c hc => spaces c (mem_cons_of_mem _ hc)) found ports h
    · have stays : s.mode = .word → isBlank b = false := fun hm =>
        Bool.eq_false_iff.2 fun blank => ended ⟨hm,blank⟩
      exact (acc.not_longer inside token (space_plain hb) stays h).elim

/-! The walk of accepted arguments. -/

theorem accepted_words (h : validateNmapArguments args maxLength = .ok out) :
    ∃ toks, ShellWords.split (strip (args.getD [])) = some toks ∧ Accepted toks := by
  unfold validateNmapArguments at h
  simp only [] at h
  split at h
  case isTrue empty => exact ⟨[],by rw [empty]; rfl,.nil⟩
  case isFalse =>
    split at h
    · cases h
    · cases hs : ShellWords.split (strip (args.getD [])) with
      | none => simp [hs] at h
      | some toks =>
        simp only [hs] at h
        cases hc : consumeTokens toks with
        | error => simp [hc,Except.map] at h
        | ok out => exact ⟨toks,rfl,consumeTokens_accepted hc⟩

theorem search_begins (h : validateNmapArguments args maxLength = .ok out)
    (found : specSearch (args.getD []) = some m) : ∃ l ∈ listsOf args, m <+: l := by
  obtain ⟨toks,split,acc⟩ := accepted_words h
  rw [←specSearch_strip] at found
  obtain ⟨before,ws,rest,text,spaces,nonempty,ports⟩ := specSearch_eq_some found
  rw [listsOf,split]
  unfold ShellWords.split at split
  rw [text,Lexer.run_append] at split
  exact acc.found spaces nonempty ports split

theorem length_fragments (l : Text) : (fragments l).length = l.count ','+1 := by
  unfold fragments
  induction l with
  | nil => rfl
  | cons c l ih =>
    rw [splitOn_cons_eq_if_modifyHead]
    by_cases hc : c = ','
    · simp [hc,ih]
    · simp [hc,ih]

theorem fragments_injective {l : Text} (h : fragments l = fragments m) : l = m := by
  rw [←@List.intercalate_splitOn _ l _ _ ',',←@List.intercalate_splitOn _ m _ _ ',']
  exact congrArg _ h

theorem only_list {lists : List Text} {l : Text} (hl : l ∈ lists)
    (h : (lists.flatMap fragments).length ≤ (fragments l).length) : lists = [l] := by
  obtain ⟨before,after,rfl⟩ := append_of_mem hl
  simp only [flatMap_append,flatMap_cons,length_append] at h
  have none : ∀ {ls : List Text}, (ls.flatMap fragments).length ≤ 0 → ls = [] := by
    intro ls hls
    cases ls with
    | nil => rfl
    | cons k ks =>
      have := length_fragments k
      simp only [flatMap_cons,length_append] at hls
      omega
  rw [@none before (by omega),@none after (by omega)]
  rfl

theorem Complete.plain (h : Complete args)
    (accepted : validateNmapArguments args maxLength = .ok out) : Plain args := by
  obtain ⟨kept,walked⟩ := complete_iff.1 h
  have whole : listsOf args = (specSearch (args.getD [])).toList ∧
      ∀ f ∈ readFragments args, fragmentPorts f ≠ [] := by
    cases found : specSearch (args.getD []) with
    | none =>
      have read : readFragments args = [] := by rw [readFragments,found]; rfl
      rw [read] at kept
      refine ⟨eq_nil_iff_forall_not_mem.2 fun l hl => fragments_ne_nil l ?_,by simp [read]⟩
      exact flatMap_eq_nil_iff.1 kept.symm l hl
    | some m =>
      have read : readFragments args = fragments m := by rw [readFragments,found]; simp
      obtain ⟨l,hl,begins⟩ := search_begins accepted found
      rw [read] at kept ⊢
      -- the fragments that are walked are no more than those of the list, which are all of them
      have fewer := length_filter_le (fragmentPorts · ≠ []) (fragments m)
      have shorter : (fragments m).length ≤ (fragments l).length := by
        rw [length_fragments,length_fragments]
        exact Nat.succ_le_succ (begins.sublist.count_le _)
      rw [kept] at fewer
      have only := only_list hl (fewer.trans shorter)
      rw [only,flatMap_cons,flatMap_nil,append_nil] at kept fewer
      have all : (fragments m).filter (fragmentPorts · ≠ []) = fragments m :=
        filter_sublist.eq_of_length_le (kept ▸ shorter)
      exact ⟨by rw [only,fragments_injective (kept.symm.trans all)]; rfl,
        fun f hf => of_decide_eq_true (filter_eq_self.1 all f hf)⟩
  obtain ⟨whole,ports⟩ := whole
  have read : readFragments args = (listsOf args).flatMap fragments := by rw [whole,readFragments]
  rw [read] at ports
  refine ⟨whole,?_,?_⟩
  · exact fun l hl f hf => fragmentPorts_ne_nil.1 (ports f (mem_flatMap.2 ⟨l,hl,hf⟩))
  · intro l hl s a hs hf p low high
    obtain ⟨f,hf,hw⟩ := mem_iter.1 ((walked p).2 ⟨l,hl,_,hf,.above hs low high⟩)
    rw [readFragments,←whole] at hf
    obtain ⟨k,hk,hf⟩ := mem_flatMap.1 hf
    -- the search finds one list only
    have same : k = l := by
      rw [whole] at hk hl
      exact Option.some.inj ((Option.mem_toList.1 hk).symm.trans (Option.mem_toList.1 hl))
    exact ⟨f,same ▸ hf,hw⟩

/-- The admission of accepted arguments is complete just when they are plain. -/
theorem complete_iff_plain {args : Option Text} {maxLength : Nat} {out : Text}
    (accepted : validateNmapArguments args maxLength = .ok out) : Complete args ↔ Plain args :=
  ⟨fun h => h.plain accepted,Plain.complete⟩

def oneList : Text := "-sT -p 22,80-443 --open".toList

theorem one_list_complete : Complete (some oneList) := by
  have accepted : validateNmapArguments (some oneList) 256 = .ok oneList := by decide +kernel
  have lists : listsOf (some oneList) = ["22,80-443".toList] := by decide +kernel
  have parts : fragments "22,80-443".toList = ["22".toList,"80".toList++ '-'::"443".toList] := by
    decide +kernel
  refine (complete_iff_plain accepted).2 ⟨by decide +kernel,?_,?_⟩
  · intro l hl f hf
    rw [lists,mem_singleton] at hl
    rw [hl,parts] at hf
    obtain rfl | rfl := mem_pair.1 hf
    · exact ⟨_,.port (n := 22) (by decide +kernel)⟩
    · exact ⟨80,.range (a := 80) (b := 443) (by decide +kernel) (by decide +kernel) (by decide)
        (by decide)⟩
  · intro l hl s a hs hf
    rw [lists,mem_singleton] at hl
    rw [hl,parts] at hf
    obtain hf | hf := mem_pair.1 hf <;> exact absurd (congrArg List.getLast? hf)
      (by rw [getLast?_concat]; decide +kernel)

def twoLists : Text := "-p 22 -p 9999".toList

/-- The second list is not seen: its port is let through without being granted. -/
theorem second_list_unseen : validateNmapArguments (some twoLists) 256 = .ok twoLists ∧
    firstUngrantedTcpPort (some twoLists) {22} = none ∧ Named (some twoLists) 9999 ∧
    (9999 : Int) ∉ ({22} : Finset Int) ∧ requestPorts (some twoLists) {22} = [22] := by
  refine ⟨by decide +kernel,by decide +kernel,?_,by decide,by decide +kernel⟩
  have lists : listsOf (some twoLists) = ["22".toList,"9999".toList] := by decide +kernel
  have parts : fragments "9999".toList = ["9999".toList] := by decide +kernel
  refine ⟨"9999".toList,lists ▸ mem_cons_of_mem _ mem_cons_self,"9999".toList,
    parts ▸ mem_cons_self,.written ?_⟩
  exact .port (n := 9999) (by decide +kernel)

end CircuitBreaker.NmapPorts
