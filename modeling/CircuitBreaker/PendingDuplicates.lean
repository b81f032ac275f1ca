import CircuitBreaker.IpText
import CircuitBreaker.VaultKey
import Mathlib.Data.List.Dedup

/-! The pending review items of network discovery (services/discovery_result_service.py): each
finding is inserted and then compared with what is pending, under the queue lock of its tenant;
one item of each identity is kept and the others are marked as duplicates of it. -/

namespace CircuitBreaker.PendingDuplicates
open List
open Vault (isSpace strip)
open IpText (isHex)

abbrev Text := List Char

def upperChar (c : Char) : Char :=
  if 97 ≤ c.toNat ∧ c.toNat ≤ 122 then Char.ofNat (c.toNat-32) else c

/-- `str.upper`, as far as it reaches ASCII. -/
def upper (t : Text) : Text := t.map upperChar

def pairs : Text → List Text
  | a::b::t => [a,b]::pairs t
  | _ => []

/-- `_norm_mac` -/
def normMac (mac : Text) : Text :=
  let cleaned := mac.filter isHex
  if cleaned.length ≠ 12 then upper (strip mac) else upper ([':'].intercalate (pairs cleaned))

def normalizeMac (mac : Option Text) : Option Text := mac.map fun t => if t = [] then t else normMac t

def normalizeIp (ip : Text) : Text :=
  match IpText.ipAddress (strip ip) with
  | some a => a.text
  | none => ip

def known (mac : Option Text) : Option Text := mac.filter (· ≠ [])

inductive State where
  | new
  | matched
  | conflict
  deriving DecidableEq

inductive Status where
  | pending
  | duplicate
  deriving DecidableEq

/-- The columns a kept item takes over from the items merged into it, with its MAC address. -/
inductive Attr where
  | osFamily
  | osVendor
  | osAccuracy
  | deviceType
  | deviceConfidence
  | openPorts
  | lldpNeighbors
  | hostname
  | snmpSysName
  | snmpSysDescr
  | banner

def Attr.own : Attr → Bool
  | .hostname | .snmpSysName | .snmpSysDescr | .banner => true
  | _ => false

variable {Val : Type}

structure Finding (Val : Type) where
  tenant : Option Int := none
  network : Option Int := none
  vlan : Option Int := none
  ip : Text
  mac : Option Text := none
  source : Option Text := none
  agent : Option Int := none
  state : State := .new
  conflicts : Option Text := none
  entity : Option Int := none
  fields : Attr → Val

/-- The last two fields are kept for the statements and read by nothing: the item a duplicate was
merged into, and whether an item without a MAC address was taken while its IP address had more
than one. -/
structure ScanResult (Val : Type) extends Finding Val where
  status : Status := .pending
  into : Option Nat := none
  ambiguous : Bool := false

def Finding.row (f : Finding Val) : ScanResult Val :=
  { f with
    ip := normalizeIp f.ip
    mac := normalizeMac f.mac }

def ScanResult.integration (r : ScanResult Val) : Bool :=
  r.source = some "docker".toList || r.source = some "proxmox".toList

def ScanResult.sameQueue (r s : ScanResult Val) : Bool :=
  r.tenant = s.tenant && r.network = s.network && r.vlan = s.vlan

def isCandidate (result r : ScanResult Val) : Bool :=
  r.status = .pending && r.sameQueue result && !r.integration &&
    (r.ip = result.ip || ((known result.mac).isSome && r.mac.map upper = result.mac))

def candidates (rows : List (ScanResult Val)) (result : ScanResult Val) :
    List (ScanResult Val × Nat) :=
  rows.zipIdx.filter fun p => isCandidate result p.1

def macsAtIp (found : List (ScanResult Val × Nat)) (result : ScanResult Val) : List (Option Text) :=
  ((found.filter fun p => p.1.ip = result.ip && (known p.1.mac).isSome).map
    fun p => normalizeMac p.1.mac).dedup

def isCompatible (result : ScanResult Val) (several : Bool) (r : ScanResult Val) : Bool :=
  let mac := normalizeMac r.mac
  !((known mac).isSome && (known result.mac).isSome && mac ≠ result.mac) &&
    !(((known mac).isNone || (known result.mac).isNone) && several) &&
    r.state = result.state && r.conflicts = result.conflicts && r.entity = result.entity

section
variable (truthy : Val → Bool)

def fill (canonical row : ScanResult Val) : ScanResult Val :=
  { canonical with
    mac := if (known canonical.mac).isNone && (known row.mac).isSome then row.mac else canonical.mac
    fields := fun a =>
      if (!a.own || canonical.agent = row.agent) && !truthy (canonical.fields a) &&
          truthy (row.fields a) then row.fields a else canonical.fields a }

def merge (rows : List (ScanResult Val)) (canonical : ScanResult Val) (c : Nat)
    (others : List (ScanResult Val × Nat)) : List (ScanResult Val) :=
  rows.mapIdx fun i r =>
    if i = c then (others.map Prod.fst).foldl (fill truthy) canonical
    else if i ∈ others.map Prod.snd then
      { r with
        status := .duplicate
        into := some c }
    else r

/-- `deduplicate_pending_result` for a row and its place in the table. -/
def deduplicate (rows : List (ScanResult Val)) (result : ScanResult Val) (e : Nat) :
    List (ScanResult Val) :=
  if result.status ≠ .pending ∨ result.state = .matched ∨ result.integration = true then rows
  else
    let found := candidates rows result
    let several := decide (1 < (macsAtIp found result).length)
    match found.filter fun p => isCompatible result several p.1 with
    | [] => rows.set e { result with ambiguous := (known result.mac).isNone && several }
    | (canonical,c)::others => merge truthy rows canonical c others

def ingest (rows : List (ScanResult Val)) (f : Finding Val) : List (ScanResult Val) :=
  deduplicate truthy (rows++[f.row]) f.row rows.length

def ingestAll (fs : List (Finding Val)) : List (ScanResult Val) := fs.foldl (ingest truthy) []

end

/-! Normalizing a MAC address again changes nothing. -/

theorem upperChar_cases (c : Char) : upperChar c = c ∨ ∃ n : Fin 26, c = Char.ofNat (97+n.val) := by
  by_cases h : 97 ≤ c.toNat ∧ c.toNat ≤ 122
  · refine .inr ⟨⟨c.toNat-97,by omega⟩,?_⟩
    rw [Nat.add_sub_cancel' h.1,Char.ofNat_toNat]
  · exact .inl (if_neg h)

theorem upperChar_upperChar (c : Char) : upperChar (upperChar c) = upperChar c := by
  obtain h | ⟨n,rfl⟩ := upperChar_cases c
  · rw [h,h]
  · revert n
    decide

theorem isHex_upperChar (c : Char) : isHex (upperChar c) = isHex c := by
  obtain h | ⟨n,rfl⟩ := upperChar_cases c
  · rw [h]
  · revert n
    decide

theorem isSpace_upperChar (c : Char) : isSpace (upperChar c) = isSpace c := by
  obtain h | ⟨n,rfl⟩ := upperChar_cases c
  · rw [h]
  · revert n
    decide

theorem upper_upper (t : Text) : upper (upper t) = upper t := by
  simp only [upper,map_map]
  exact map_congr_left fun c _ => upperChar_upperChar c

theorem filter_upper (t : Text) : (upper t).filter isHex = upper (t.filter isHex) := by
  simp only [upper,filter_map]
  congr 2
  exact funext isHex_upperChar

theorem dropWhile_upper (t : Text) : (upper t).dropWhile isSpace = upper (t.dropWhile isSpace) := by
  simp only [upper,dropWhile_map]
  congr 2
  exact funext isSpace_upperChar

theorem strip_upper (t : Text) : strip (upper t) = upper (strip t) := by
  have reversed (u : Text) : (upper u).reverse = upper u.reverse := map_reverse.symm
  rw [strip,strip,dropWhile_upper,reversed,dropWhile_upper,reversed]

theorem dropWhile_of_prefix {t u : Text} (h : u <+: t.dropWhile isSpace) : u.dropWhile isSpace = u := by
  cases u with
  | nil => rfl
  | cons c u =>
    obtain ⟨rest,hr⟩ := h
    have head := head?_dropWhile_not isSpace t
    rw [←hr,cons_append] at head
    exact dropWhile_cons_of_neg (by simpa using head)

theorem strip_strip (t : Text) : strip (strip t) = strip t := by
  have front : (strip t).dropWhile isSpace = strip t := by
    refine dropWhile_of_prefix (t := t) ?_
    have ends := reverse_prefix.2 (dropWhile_suffix (l := (t.dropWhile isSpace).reverse) isSpace)
    rwa [reverse_reverse] at ends
  have back : (strip t).reverse.dropWhile isSpace = (strip t).reverse := by
    rw [strip,reverse_reverse]
    exact dropWhile_of_prefix prefix_rfl
  rw [strip,front,back,reverse_reverse]

theorem isHex_not_space {c : Char} (h : isHex c = true) : isSpace c = false := by
  simp only [isHex,Char.isDigit,Bool.or_eq_true,Bool.and_eq_true,decide_eq_true_eq] at h
  have bounds : 48 ≤ c.toNat ∧ c.toNat ≤ 102 := by
    obtain (⟨low,high⟩ | ⟨low,high⟩) | ⟨low,high⟩ := h
    · have low' : 48 ≤ c.toNat := UInt32.le_iff_toNat_le.1 low
      have high' : c.toNat ≤ 57 := UInt32.le_iff_toNat_le.1 high
      omega
    · omega
    · omega
  simp only [isSpace,Bool.or_eq_false_iff,Bool.and_eq_false_iff,decide_eq_false_iff_not,
    beq_eq_false_iff_ne]
  omega

theorem filter_dropWhile (t : Text) : (t.dropWhile isSpace).filter isHex = t.filter isHex := by
  conv_rhs => rw [←takeWhile_append_dropWhile (p := isSpace) (l := t),filter_append]
  have none : (t.takeWhile isSpace).filter isHex = [] := by
    refine filter_eq_nil_iff.2 fun c hc hx => ?_
    have space := mem_takeWhile_imp hc
    rw [isHex_not_space hx] at space
    cases space
  rw [none,nil_append]

theorem filter_strip (t : Text) : (strip t).filter isHex = t.filter isHex := by
  rw [strip,filter_reverse,filter_dropWhile,filter_reverse,reverse_reverse,
    filter_dropWhile]

theorem colons_digits {ds : Text} (hex : ∀ c ∈ ds, isHex c = true) (twelve : ds.length = 12) :
    ([':'].intercalate (pairs ds)).filter isHex = ds := by
  match ds,twelve with
  | [a,b,c,d,e,f,g,h,i,j,k,l],_ =>
    have colon : isHex ':' = false := by decide
    simp only [mem_cons,not_mem_nil,or_false,forall_eq_or_imp,forall_eq] at hex
    simp [pairs,List.intercalate,List.intersperse,colon,hex]

theorem normMac_normMac (t : Text) : normMac (normMac t) = normMac t := by
  by_cases twelve : (t.filter isHex).length = 12
  · have first : normMac t = upper ([':'].intercalate (pairs (t.filter isHex))) := by
      simp [normMac,twelve]
    have digits : (normMac t).filter isHex = upper (t.filter isHex) := by
      rw [first,filter_upper,colons_digits (fun c hc => (mem_filter.1 hc).2) twelve]
    have colons : [':'].intercalate (pairs (upper (t.filter isHex))) = normMac t := by
      rw [first]
      generalize t.filter isHex = ds at twelve
      match ds,twelve with
      | [a,b,c,d,e,f,g,h,i,j,k,l],_ =>
        have colon : upperChar ':' = ':' := by decide
        simp [upper,pairs,List.intercalate,List.intersperse,colon]
    have again : normMac (normMac t) = upper ([':'].intercalate (pairs ((normMac t).filter isHex))) := by
      rw [normMac,if_neg]
      simp [digits,upper,twelve]
    rw [again,digits,colons,first,upper_upper]
  · have other : normMac t = upper (strip t) := by simp [normMac,twelve]
    have still : ((upper (strip t)).filter isHex).length ≠ 12 := by
      rw [filter_upper,filter_strip,upper,length_map]
      exact twelve
    rw [other,normMac,if_pos still,strip_upper,strip_strip,upper_upper]

theorem upper_normMac (t : Text) : upper (normMac t) = normMac t := by
  unfold normMac
  simp only []
  split <;> exact upper_upper _

def NormalMac (mac : Option Text) : Prop := normalizeMac mac = mac ∧ mac.map upper = mac

theorem normalizeMac_normal (mac : Option Text) : NormalMac (normalizeMac mac) := by
  cases mac with
  | none => exact ⟨rfl,rfl⟩
  | some t =>
    by_cases ht : t = []
    · subst ht
      exact ⟨rfl,rfl⟩
    · constructor
      · by_cases hn : normMac t = []
        · simp [normalizeMac,ht,hn]
        · simp [normalizeMac,ht,hn,normMac_normMac]
      · simp [normalizeMac,ht,upper_normMac]

/-! What the claims of identity are about. -/

structure Alike (r s : ScanResult Val) : Prop where
  place : r.sameQueue s = true
  ip : r.ip = s.ip
  mac : known (normalizeMac r.mac) = known (normalizeMac s.mac)
  state : r.state = s.state
  conflicts : r.conflicts = s.conflicts
  entity : r.entity = s.entity

inductive Leads (t : List (ScanResult Val)) : Nat → Nat → Prop where
  | here {i : Nat} : Leads t i i
  | merged {i j c : Nat} {r : ScanResult Val} (hr : t[i]? = some r) (hj : r.into = some j)
      (more : Leads t j c) : Leads t i c

theorem sameQueue_iff {r s : ScanResult Val} : r.sameQueue s = true ↔
    r.tenant = s.tenant ∧ r.network = s.network ∧ r.vlan = s.vlan := by
  simp [ScanResult.sameQueue,and_assoc]

theorem Alike.symm {r s : ScanResult Val} (h : Alike r s) : Alike s r where
  place := by
    obtain ⟨ht,hn,hv⟩ := sameQueue_iff.1 h.place
    exact sameQueue_iff.2 ⟨ht.symm,hn.symm,hv.symm⟩
  ip := h.ip.symm
  mac := h.mac.symm
  state := h.state.symm
  conflicts := h.conflicts.symm
  entity := h.entity.symm

structure Sound (t : List (ScanResult Val)) : Prop where
  normal : ∀ r ∈ t, NormalMac r.mac
  distinct : ∀ (i j : Nat) r s, i < j → t[i]? = some r → t[j]? = some s → r.status = .pending →
    s.status = .pending → r.integration = false → s.integration = false → Alike r s →
    r.state ≠ .matched → known r.mac = none ∧ s.ambiguous = true
  marked : ∀ (i : Nat) r, t[i]? = some r → (r.status = .pending ∧ r.into = none) ∨
    (r.status = .duplicate ∧ ∃ j s, j < i ∧ r.into = some j ∧ t[j]? = some s ∧
      r.sameQueue s = true ∧ ∀ m, known r.mac = some m → known s.mac = some m)

theorem known_eq_some {mac : Option Text} {m : Text} : known mac = some m ↔ mac = some m ∧ m ≠ [] := by
  simp [known,Option.filter_eq_some_iff]

/-! The rows that are merged. -/

section
variable {rows : List (ScanResult Val)} {result : ScanResult Val}

variable {p : ScanResult Val × Nat}

theorem mem_candidates : p ∈ candidates rows result ↔
    rows[p.2]? = some p.1 ∧ isCandidate result p.1 = true := by
  rw [candidates,mem_filter,mem_zipIdx_iff_getElem?]

theorem isCandidate_iff {r : ScanResult Val} : isCandidate result r = true ↔
    r.status = .pending ∧ r.sameQueue result = true ∧ r.integration = false ∧
      (r.ip = result.ip ∨ ((known result.mac).isSome = true ∧ r.mac.map upper = result.mac)) := by
  simp [isCandidate,and_assoc]

theorem isCompatible_iff {several : Bool} {r : ScanResult Val} (hr : NormalMac r.mac) :
    isCompatible result several r = true ↔
      (∀ m n, known r.mac = some m → known result.mac = some n → m = n) ∧
      (several = true → (known r.mac).isSome = true ∧ (known result.mac).isSome = true) ∧
      r.state = result.state ∧ r.conflicts = result.conflicts ∧ r.entity = result.entity := by
  have macs : ((known r.mac).isSome && (known result.mac).isSome && decide (r.mac ≠ result.mac)) =
      false ↔ ∀ m n, known r.mac = some m → known result.mac = some n → m = n := by
    cases hm : known r.mac with
    | none => simp
    | some m =>
      cases hn : known result.mac with
      | none => simp
      | some n =>
        rw [(known_eq_some.1 hm).1,(known_eq_some.1 hn).1]
        simp
  simp only [isCompatible,hr.1,Bool.and_eq_true,Bool.not_eq_true',macs,decide_eq_true_eq,and_assoc]
  refine and_congr_right fun _ => and_congr_left fun _ => ?_
  cases several <;> cases known r.mac <;> cases known result.mac <;> simp

/-- The compatible rows among the candidates, as `deduplicate` finds them. -/
def chosen (rows : List (ScanResult Val)) (result : ScanResult Val) : List (ScanResult Val × Nat) :=
  (candidates rows result).filter fun p => isCompatible result
    (decide (1 < (macsAtIp (candidates rows result) result).length)) p.1

theorem mem_chosen (normal : ∀ r ∈ rows, NormalMac r.mac) :
    p ∈ chosen rows result ↔ rows[p.2]? = some p.1 ∧ isCandidate result p.1 = true ∧
      (∀ m n, known p.1.mac = some m → known result.mac = some n → m = n) ∧
      (1 < (macsAtIp (candidates rows result) result).length →
        (known p.1.mac).isSome = true ∧ (known result.mac).isSome = true) ∧
      p.1.state = result.state ∧ p.1.conflicts = result.conflicts ∧ p.1.entity = result.entity := by
  rw [chosen,mem_filter,mem_candidates,and_assoc]
  refine and_congr_right fun hp => and_congr_right fun _ => ?_
  rw [isCompatible_iff (normal _ (mem_of_getElem? hp))]
  simp only [decide_eq_true_eq]

theorem eq_of_short {α : Type} {l : List α} (h : ¬1 < l.length) {a b : α} (ha : a ∈ l) (hb : b ∈ l) :
    a = b := by
  match l,h with
  | [c],_ => rw [mem_singleton.1 ha,mem_singleton.1 hb]
  | _::_::_,h => simp at h

theorem chosen_agree (normal : ∀ r ∈ rows, NormalMac r.mac) {q : ScanResult Val × Nat}
    (hp : p ∈ chosen rows result) (hq : q ∈ chosen rows result) {m n : Text}
    (hm : known p.1.mac = some m) (hn : known q.1.mac = some n) : m = n := by
  obtain ⟨rp,cp,mp,sp,-⟩ := (mem_chosen normal).1 hp
  obtain ⟨rq,cq,mq,-⟩ := (mem_chosen normal).1 hq
  cases hr : known result.mac with
  | some k => exact (mp m k hm hr).trans (mq n k hn hr).symm
  | none =>
    -- they are at the result's address, which has one MAC address at most
    have few : ¬1 < (macsAtIp (candidates rows result) result).length := by
      intro several
      have := (sp several).2
      rw [hr] at this
      cases this
    have at_ip : ∀ {x : ScanResult Val × Nat} {k : Text}, rows[x.2]? = some x.1 →
        isCandidate result x.1 = true → known x.1.mac = some k →
        some k ∈ macsAtIp (candidates rows result) result := by
      intro x k hx cx hk
      obtain ⟨-,-,-,ip⟩ := isCandidate_iff.1 cx
      have ip : x.1.ip = result.ip := by simpa [hr] using ip
      refine mem_dedup.2 (mem_map.2 ⟨x,mem_filter.2 ⟨mem_candidates.2 ⟨hx,cx⟩,?_⟩,?_⟩)
      · simp [ip,hk]
      · rw [(normal _ (mem_of_getElem? hx)).1,(known_eq_some.1 hk).1]
    exact Option.some.inj (eq_of_short few (at_ip rp cp hm) (at_ip rq cq hn))

theorem chosen_places {others : List (ScanResult Val × Nat)}
    (h : chosen rows result = p::others) : ∀ q ∈ others, p.2 < q.2 := by
  have sub : (chosen rows result).Sublist rows.zipIdx :=
    filter_sublist.trans filter_sublist
  have sorted : (rows.zipIdx.map Prod.snd).Pairwise (· < ·) := by
    rw [zipIdx_map_snd]
    exact pairwise_lt_range'
  have places := sorted.sublist (sub.map Prod.snd)
  rw [h,map_cons,pairwise_cons] at places
  exact fun q hq => places.1 _ (mem_map_of_mem hq)

end

/-! What the kept row takes over. -/

section
variable {truthy : Val → Bool}

/-- The kept row's columns: only empty ones change, and it has a MAC address if one of them does. -/
structure Filled (truthy : Val → Bool) (c : ScanResult Val) (rs : List (ScanResult Val))
    (s : ScanResult Val) : Prop where
  columns : s = { c with
    mac := s.mac
    fields := s.fields }
  source : ∃ r ∈ c::rs, s.mac = r.mac
  mac : ∀ m, known c.mac = some m → s.mac = c.mac
  fields : ∀ a, truthy (c.fields a) = true → s.fields a = c.fields a
  gains : ∀ r ∈ c::rs, (known r.mac).isSome = true → (known s.mac).isSome = true

theorem fold_filled (c : ScanResult Val) (rs : List (ScanResult Val)) :
    Filled truthy c rs (rs.foldl (fill truthy) c) := by
  induction rs generalizing c with
  | nil => exact ⟨rfl,⟨c,mem_cons_self,rfl⟩,fun _ _ => rfl,fun _ _ => rfl,
      fun r hr hs => by rwa [mem_singleton.1 hr] at hs⟩
  | cons r rs ih =>
    have h := ih (fill truthy c r)
    have mac : (fill truthy c r).mac = c.mac ∨ (fill truthy c r).mac = r.mac := by
      unfold fill
      simp only []
      split
      · exact .inr rfl
      · exact .inl rfl
    have stays : ∀ m, known c.mac = some m → (fill truthy c r).mac = c.mac := by
      intro m hm
      simp [fill,hm]
    rw [foldl_cons]
    constructor
    · rw [h.columns]
      simp [fill]
    · obtain ⟨x,hx,hs⟩ := h.source
      rw [hs]
      cases mem_cons.1 hx with
      | inl here =>
        subst here
        cases mac with
        | inl kept => exact ⟨c,mem_cons_self,kept⟩
        | inr taken => exact ⟨r,mem_cons_of_mem _ mem_cons_self,taken⟩
      | inr there => exact ⟨x,mem_cons_of_mem _ (mem_cons_of_mem _ there),rfl⟩
    · intro m hm
      have kept := stays m hm
      rw [h.mac m (by rw [kept,hm]),kept]
    · intro a ha
      have kept : (fill truthy c r).fields a = c.fields a := by simp [fill,ha]
      rw [h.fields a (by rw [kept,ha]),kept]
    · intro x hx hs
      have first : (known c.mac).isSome = true ∨ (known r.mac).isSome = true →
          (known (fill truthy c r).mac).isSome = true := by
        intro either
        cases hc : known c.mac with
        | some m => rw [stays m hc,hc]; rfl
        | none =>
          have hr : (known r.mac).isSome = true := by simpa [hc] using either
          simp [fill,hc,hr]
      obtain rfl | hx := mem_cons.1 hx
      · exact h.gains _ mem_cons_self (first (.inl hs))
      · obtain rfl | hx := mem_cons.1 hx
        · exact h.gains _ mem_cons_self (first (.inr hs))
        · exact h.gains x (mem_cons_of_mem _ hx) hs

/-! One finding. -/

theorem row_normal (f : Finding Val) : NormalMac f.row.mac := normalizeMac_normal f.mac

variable {t : List (ScanResult Val)}

theorem snoc_normal (h : ∀ r ∈ t, NormalMac r.mac) (f : Finding Val) :
    ∀ r ∈ t++[f.row], NormalMac r.mac := by
  intro r hr
  cases mem_append.1 hr with
  | inl old => exact h r old
  | inr new => rw [mem_singleton.1 new]; exact row_normal f

theorem ingest_cases {t : List (ScanResult Val)} (normal : ∀ r ∈ t, NormalMac r.mac)
    (f : Finding Val) :
    ((f.row.state = .matched ∨ f.row.integration = true) ∧ ingest truthy t f = t++[f.row]) ∨
    (known f.row.mac = none ∧ ingest truthy t f = t++[{ f.row with ambiguous := true }]) ∨
    ∃ c others, chosen (t++[f.row]) f.row = c::others ∧ (f.row,t.length) ∈ c::others ∧
      ingest truthy t f = merge truthy (t++[f.row]) c.1 c.2 others := by
  have pending : f.row.status = .pending := rfl
  have there : (t++[f.row])[t.length]? = some f.row := List.getElem?_concat_length
  by_cases left : f.row.state = .matched ∨ f.row.integration = true
  · refine .inl ⟨left,?_⟩
    rw [ingest,deduplicate,if_pos (.inr left)]
  · have looked : ¬(f.row.status ≠ .pending ∨ f.row.state = .matched ∨ f.row.integration = true) := by
      simpa [pending] using left
    have own : f.row.integration = false := by
      simpa using fun h => left (.inr h)
    refine .inr ?_
    have unfolded : ingest truthy t f = match chosen (t++[f.row]) f.row with
        | [] => (t++[f.row]).set t.length { f.row with
            ambiguous := (known f.row.mac).isNone &&
              decide (1 < (macsAtIp (candidates (t++[f.row]) f.row) f.row).length) }
        | (canonical,c)::others => merge truthy (t++[f.row]) canonical c others := by
      rw [ingest,deduplicate,if_neg looked]
      rfl
    have member : (f.row,t.length) ∈ chosen (t++[f.row]) f.row ↔
        (1 < (macsAtIp (candidates (t++[f.row]) f.row) f.row).length →
          (known f.row.mac).isSome = true) := by
      rw [mem_chosen (snoc_normal normal f),isCandidate_iff]
      simp only [there,pending,own,true_and,and_true,and_self,true_or,sameQueue_iff]
      refine and_iff_right fun m n hm hn => ?_
      rw [hm] at hn
      exact Option.some.inj hn
    by_cases hm : (f.row,t.length) ∈ chosen (t++[f.row]) f.row
    · refine .inr ?_
      obtain ⟨c,others,hc⟩ := exists_cons_of_ne_nil (ne_nil_of_mem hm)
      exact ⟨c,others,hc,hc ▸ hm,by rw [unfolded,hc]⟩
    · refine .inl ?_
      have alone := mt member.2 hm
      simp only [Classical.not_imp,Bool.not_eq_true,Option.isSome_eq_false_iff,
        Option.isNone_iff_eq_none] at alone
      obtain ⟨several,none⟩ := alone
      have nothing : chosen (t++[f.row]) f.row = [] := by
        refine eq_nil_iff_forall_not_mem.2 fun p hp => ?_
        have := (((mem_chosen (snoc_normal normal f)).1 hp).2.2.2.1 several).2
        rw [none] at this
        cases this
      refine ⟨none,?_⟩
      rw [unfolded,nothing]
      simp [none,several]

variable {rows : List (ScanResult Val)} {others : List (ScanResult Val × Nat)} {i : Nat}

theorem merge_get {p : ScanResult Val × Nat} {r' : ScanResult Val}
    (h : (merge truthy rows p.1 p.2 others)[i]? = some r') : ∃ r, rows[i]? = some r ∧
      ((i = p.2 ∧ r' = (others.map Prod.fst).foldl (fill truthy) p.1) ∨
        (i ≠ p.2 ∧ i ∈ others.map Prod.snd ∧ r' = { r with
          status := .duplicate
          into := some p.2 }) ∨
        (i ≠ p.2 ∧ i ∉ others.map Prod.snd ∧ r' = r)) := by
  rw [merge,List.getElem?_mapIdx,Option.map_eq_some_iff] at h
  obtain ⟨r,hr,rfl⟩ := h
  refine ⟨r,hr,?_⟩
  by_cases hi : i = p.2
  · exact .inl ⟨hi,if_pos hi⟩
  · by_cases ho : i ∈ others.map Prod.snd
    · exact .inr (.inl ⟨hi,ho,by rw [if_neg hi,if_pos ho]⟩)
    · exact .inr (.inr ⟨hi,ho,by rw [if_neg hi,if_neg ho]⟩)

variable {s : ScanResult Val}

theorem filled_mac {result c : ScanResult Val} {n : Nat} (normal : ∀ r ∈ rows, NormalMac r.mac)
    (hc : chosen rows result = (c,i)::others) (filled : Filled truthy c (others.map Prod.fst) s)
    {q : ScanResult Val} (hq : (q,n) ∈ (c,i)::others) {m : Text} (hm : known q.mac = some m) :
    known s.mac = some m := by
  have inside : ∀ {x : ScanResult Val}, x ∈ c::others.map Prod.fst → ∃ k, (x,k) ∈ (c,i)::others := by
    intro x hx
    have hx : x ∈ ((c,i)::others).map Prod.fst := hx
    obtain ⟨⟨y,k⟩,hy,rfl⟩ := mem_map.1 hx
    exact ⟨k,hy⟩
  have there : q ∈ c::others.map Prod.fst := mem_map_of_mem (f := Prod.fst) hq
  have some := filled.gains q there (by rw [hm]; rfl)
  obtain ⟨k,hk⟩ := Option.isSome_iff_exists.1 some
  obtain ⟨x,hx,source⟩ := filled.source
  obtain ⟨j,hx⟩ := inside hx
  rw [hk]
  rw [source] at hk
  exact congrArg _ (chosen_agree normal (hc ▸ hx) (hc ▸ hq) hk hm)

variable {r : ScanResult Val}

theorem alike_chosen {result c : ScanResult Val} {k n : Nat} (normal : ∀ r ∈ rows, NormalMac r.mac)
    (hc : chosen rows result = (c,i)::others) (filled : Filled truthy c (others.map Prod.fst) s)
    (hn : (result,n) ∈ (c,i)::others) (hr : rows[k]? = some r) (pending : r.status = .pending)
    (own : r.integration = false) (alike : Alike r s) : (r,k) ∈ chosen rows result := by
  obtain ⟨-,candidate,-,few,state,conflicts,entity⟩ := (mem_chosen normal).1 (hc ▸ mem_cons_self)
  obtain ⟨-,-,-,alone,-⟩ := (mem_chosen normal).1 (hc ▸ hn)
  obtain ⟨-,place,-,ip⟩ := isCandidate_iff.1 candidate
  have columns := filled.columns
  have r_place : r.sameQueue result = true := by
    obtain ⟨ht,hn,hv⟩ := sameQueue_iff.1 alike.place
    rw [columns] at ht hn hv
    obtain ⟨ht',hn',hv'⟩ := sameQueue_iff.1 place
    exact sameQueue_iff.2 ⟨ht.trans ht',hn.trans hn',hv.trans hv'⟩
  have r_ip : r.ip = c.ip := by
    have := alike.ip
    rwa [columns] at this
  have s_normal : NormalMac s.mac := by
    obtain ⟨x,hx,source⟩ := filled.source
    have hx : x ∈ ((c,i)::others).map Prod.fst := hx
    obtain ⟨⟨y,j⟩,hy,rfl⟩ := mem_map.1 hx
    rw [source]
    exact normal _ (mem_of_getElem? ((mem_chosen normal).1 (hc ▸ hy)).1)
  have r_normal := normal _ (mem_of_getElem? hr)
  have mac : known r.mac = known s.mac := by
    have := alike.mac
    rwa [r_normal.1,s_normal.1] at this
  have with_mac : ∀ m, known result.mac = some m → known r.mac = some m := fun m hm =>
    mac.trans (filled_mac normal hc filled hn hm)
  refine (mem_chosen normal).2 ⟨hr,isCandidate_iff.2 ⟨pending,r_place,own,?_⟩,?_,?_,?_,?_,?_⟩
  · cases hm : known result.mac with
    | none =>
      rw [hm] at ip
      exact .inl (r_ip.trans (by simpa using ip))
    | some m =>
      refine .inr ⟨rfl,?_⟩
      rw [r_normal.2,(known_eq_some.1 (with_mac m hm)).1,(known_eq_some.1 hm).1]
  · intro m m' hm hm'
    exact Option.some.inj (hm.symm.trans (with_mac m' hm'))
  · intro several
    have some := (alone several).2
    obtain ⟨m,hm⟩ := Option.isSome_iff_exists.1 some
    exact ⟨by rw [with_mac m hm]; rfl,some⟩
  · have := alike.state
    rw [columns] at this
    exact this.trans state
  · have := alike.conflicts
    rw [columns] at this
    exact this.trans conflicts
  · have := alike.entity
    rw [columns] at this
    exact this.trans entity

theorem get_snoc {α : Type} {l : List α} {x y : α} (h : (l++[x])[i]? = some y) :
    (i < l.length ∧ l[i]? = some y) ∨ (i = l.length ∧ y = x) := by
  by_cases hi : i < l.length
  · exact .inl ⟨hi,by rwa [List.getElem?_append_left hi] at h⟩
  · have bound := (List.getElem?_eq_some_iff.1 h).1
    rw [length_append,length_singleton] at bound
    obtain rfl : i = l.length := by omega
    rw [List.getElem?_concat_length] at h
    exact .inr ⟨rfl,(Option.some.inj h).symm⟩

theorem get_old {α : Type} {l : List α} {x y : α} {i : Nat} (h : l[i]? = some y) :
    (l++[x])[i]? = some y := by
  rw [List.getElem?_append_left (List.getElem?_eq_some_iff.1 h).1,h]

theorem snoc_marked (h : Sound t) {x : ScanResult Val}
    (pending : x.status = .pending) (into : x.into = none) : ∀ (i : Nat) r, (t++[x])[i]? = some r →
      (r.status = .pending ∧ r.into = none) ∨ (r.status = .duplicate ∧ ∃ j s, j < i ∧
        r.into = some j ∧ (t++[x])[j]? = some s ∧ r.sameQueue s = true ∧
        ∀ m, known r.mac = some m → known s.mac = some m) := by
  intro i r hr
  obtain ⟨-,old⟩ | ⟨-,rfl⟩ := get_snoc hr
  · obtain pending | ⟨duplicate,j,s,hj,into,hs,facts⟩ := h.marked i r old
    · exact .inl pending
    · exact .inr ⟨duplicate,j,s,hj,into,get_old hs,facts⟩
  · exact .inl ⟨pending,into⟩

theorem Sound.snoc (h : Sound t) {x : ScanResult Val}
    (normal : NormalMac x.mac) (pending : x.status = .pending) (into : x.into = none)
    (reason : (x.state = .matched ∨ x.integration = true) ∨
      (known x.mac = none ∧ x.ambiguous = true)) : Sound (t++[x]) where
  normal r hr := by
    cases mem_append.1 hr with
    | inl old => exact h.normal r old
    | inr new => rw [mem_singleton.1 new]; exact normal
  distinct i j r s hij hr hs pr ps own own' alike state := by
    obtain ⟨hj,old⟩ | ⟨rfl,rfl⟩ := get_snoc hs
    · obtain ⟨-,old'⟩ | ⟨rfl,-⟩ := get_snoc hr
      · exact h.distinct i j r s hij old' old pr ps own own' alike state
      · omega
    · obtain ⟨-,old⟩ | ⟨hi,-⟩ := get_snoc hr
      · obtain (matched | own) | ⟨none,ambiguous⟩ := reason
        · exact absurd (alike.state.trans matched) state
        · rw [own] at own'
          cases own'
        · refine ⟨?_,ambiguous⟩
          have mac := alike.mac
          rwa [normal.1,(h.normal r (mem_of_getElem? old)).1,none] at mac
      · omega
  marked := snoc_marked h pending into

theorem Sound.merge (h : Sound t) {f : Finding Val}
    {c : ScanResult Val × Nat}
    (hc : chosen (t++[f.row]) f.row = c::others) (hn : (f.row,t.length) ∈ c::others) :
    Sound (merge truthy (t++[f.row]) c.1 c.2 others) := by
  obtain ⟨c,ci⟩ := c
  have normal := snoc_normal h.normal f
  have marked := snoc_marked h (x := f.row) rfl rfl
  have filled : Filled truthy c (others.map Prod.fst) _ := fold_filled c (others.map Prod.fst)
  obtain ⟨at_c,candidate,-⟩ := (mem_chosen normal).1 (hc ▸ mem_cons_self)
  obtain ⟨pending,place,own,-⟩ := isCandidate_iff.1 candidate
  have get : ∀ {i : Nat} {r' : ScanResult Val},
      (PendingDuplicates.merge truthy (t++[f.row]) c ci others)[i]? = some r' → _ := fun hr =>
    merge_get (p := (c,ci)) hr
  have at_kept : (PendingDuplicates.merge truthy (t++[f.row]) c ci others)[ci]? =
      some ((others.map Prod.fst).foldl (fill truthy) c) := by
    rw [PendingDuplicates.merge,List.getElem?_mapIdx,at_c]
    simp
  have untouched : ∀ {k : Nat} {r : ScanResult Val}, k ≠ ci → k ∉ others.map Prod.snd →
      (t++[f.row])[k]? = some r → r.status = .pending → r.integration = false →
      ¬Alike r ((others.map Prod.fst).foldl (fill truthy) c) := by
    intro k r hk ho hr pr own alike
    have there := alike_chosen normal hc filled hn hr pr own alike
    rw [hc] at there
    cases mem_cons.1 there with
    | inl here => exact hk (congrArg Prod.snd here)
    | inr there => exact ho (mem_map_of_mem (f := Prod.snd) there)
  generalize (others.map Prod.fst).foldl (fill truthy) c = s at filled get at_kept untouched
  have columns := filled.columns
  constructor
  · intro r hr
    obtain ⟨i,hi⟩ := mem_iff_getElem?.1 hr
    obtain ⟨x,hx,⟨-,rfl⟩ | ⟨-,-,rfl⟩ | ⟨-,-,rfl⟩⟩ := get hi
    · obtain ⟨y,hy,source⟩ := filled.source
      have hy : y ∈ ((c,ci)::others).map Prod.fst := hy
      obtain ⟨⟨z,k⟩,hz,rfl⟩ := mem_map.1 hy
      rw [source]
      exact normal _ (mem_of_getElem? ((mem_chosen normal).1 (hc ▸ hz)).1)
    · exact normal x (mem_of_getElem? hx)
    · exact normal r (mem_of_getElem? hx)
  · intro i j r u hij hr hu pr pu ri ui alike state
    obtain ⟨x,hx,⟨hi,rfl⟩ | ⟨-,-,rfl⟩ | ⟨hi,hi',rfl⟩⟩ := get hr
    · obtain ⟨y,hy,⟨hj,-⟩ | ⟨-,-,rfl⟩ | ⟨hj,hj',rfl⟩⟩ := get hu
      · omega
      · cases pu
      · exact absurd alike.symm (untouched hj hj' hy pu ui)
    · cases pr
    · obtain ⟨y,hy,⟨hj,rfl⟩ | ⟨-,-,rfl⟩ | ⟨hj,hj',rfl⟩⟩ := get hu
      · exact absurd alike (untouched hi hi' hx pr ri)
      · cases pu
      · obtain ⟨jt,old⟩ | ⟨rfl,-⟩ := get_snoc hy
        · obtain ⟨-,old'⟩ | ⟨rfl,-⟩ := get_snoc hx
          · exact h.distinct i j r u hij old' old pr pu ri ui alike state
          · omega
        · -- the finding itself is chosen
          cases mem_cons.1 hn with
          | inl here => exact absurd (congrArg Prod.snd here) hj
          | inr there => exact absurd (mem_map_of_mem (f := Prod.snd) there) hj'
  · intro i r hr
    obtain ⟨x,hx,⟨rfl,rfl⟩ | ⟨hi,hi',rfl⟩ | ⟨hi,hi',rfl⟩⟩ := get hr
    · refine .inl ?_
      obtain ⟨-,into⟩ | ⟨duplicate,-⟩ := marked _ c at_c
      · rw [columns]
        exact ⟨pending,into⟩
      · rw [pending] at duplicate
        cases duplicate
    · refine .inr ⟨rfl,ci,s,?_,rfl,at_kept,?_,?_⟩
      · obtain ⟨q,hq,rfl⟩ := mem_map.1 hi'
        exact chosen_places hc q hq
      all_goals
        obtain ⟨q,hq,rfl⟩ := mem_map.1 hi'
        have hq' : q ∈ (c,ci)::others := mem_cons_of_mem _ hq
        obtain ⟨at_q,candidate',-⟩ := (mem_chosen normal).1 (hc ▸ hq')
        rw [at_q] at hx
        cases hx
      · obtain ⟨ht,hn,hv⟩ := sameQueue_iff.1 (isCandidate_iff.1 candidate').2.1
        obtain ⟨ht',hn',hv'⟩ := sameQueue_iff.1 place
        rw [columns]
        exact sameQueue_iff.2 ⟨ht.trans ht'.symm,hn.trans hn'.symm,hv.trans hv'.symm⟩
      · exact fun m hm => filled_mac normal hc filled hq' hm
    · obtain pending | ⟨duplicate,j,u,hj,into,hu,same,mac⟩ := marked i r hx
      · exact .inl pending
      · refine .inr ⟨duplicate,j,?_⟩
        by_cases kept : j = ci
        · subst kept
          rw [at_c] at hu
          cases hu
          refine ⟨s,hj,into,at_kept,?_,fun m hm => ?_⟩
          · rw [columns]
            exact same
          · rw [filled.mac m (mac m hm)]
            exact mac m hm
        · have at_j : (PendingDuplicates.merge truthy (t++[f.row]) c ci others)[j]? = some
              (if j ∈ others.map Prod.snd then { u with
                status := .duplicate
                into := some ci } else u) := by
            rw [PendingDuplicates.merge,List.getElem?_mapIdx,hu]
            simp [kept]
          refine ⟨_,hj,into,at_j,?_,?_⟩
          · split <;> exact same
          · split <;> exact mac

/-! Whole runs. -/

theorem Sound.ingest {t : List (ScanResult Val)} (h : Sound t) (f : Finding Val) :
    Sound (ingest truthy t f) := by
  obtain ⟨left,ht⟩ | ⟨none,ht⟩ | ⟨c,others,hc,hn,ht⟩ := @ingest_cases Val truthy t h.normal f
  · rw [ht]
    exact h.snoc (row_normal f) rfl rfl (.inl left)
  · rw [ht]
    exact h.snoc (row_normal f) rfl rfl (.inr ⟨none,rfl⟩)
  · rw [ht]
    exact h.merge hc hn

theorem ingestAll_sound (fs : List (Finding Val)) : Sound (ingestAll truthy fs) := by
  have run : ∀ {t : List (ScanResult Val)}, Sound t → Sound (fs.foldl (PendingDuplicates.ingest truthy) t) := by
    induction fs with
    | nil => exact fun h => h
    | cons f fs ih => exact fun h => ih (h.ingest f)
  have empty : Sound ([] : List (ScanResult Val)) :=
    ⟨fun _ hr => absurd hr not_mem_nil,fun _ _ _ _ _ hr => by simp at hr,
      fun _ _ hr => by simp at hr⟩
  exact run empty

theorem Sound.mac_leads (h : Sound t) {c : Nat} (leads : Leads t i c) (hr : t[i]? = some r) (hs : t[c]? = some s) {m : Text}
    (hm : known r.mac = some m) : known s.mac = some m := by
  induction leads generalizing r with
  | here =>
    rw [hr] at hs
    cases hs
    exact hm
  | merged hr' into _ ih =>
    rw [hr] at hr'
    cases hr'
    obtain ⟨-,none⟩ | ⟨-,j,u,-,into',hu,-,mac⟩ := h.marked _ _ hr
    · rw [none] at into
      cases into
    · rw [into'] at into
      cases into
      exact ih hu hs (mac m hm)

theorem Sound.root (h : Sound t) (i : Nat) : ∀ r, t[i]? = some r →
    ∃ c s, c ≤ i ∧ t[c]? = some s ∧ s.status = .pending ∧ r.sameQueue s = true ∧ Leads t i c := by
  induction i using Nat.strong_induction_on with
  | _ i ih =>
    intro r hr
    obtain ⟨pending,-⟩ | ⟨-,j,u,hj,into,hu,same,-⟩ := h.marked i r hr
    · exact ⟨i,r,le_refl i,hr,pending,sameQueue_iff.2 ⟨rfl,rfl,rfl⟩,.here⟩
    · obtain ⟨c,s,hc,hs,pending,same',leads⟩ := ih j hj u hu
      obtain ⟨ht,hn,hv⟩ := sameQueue_iff.1 same
      obtain ⟨ht',hn',hv'⟩ := sameQueue_iff.1 same'
      exact ⟨c,s,hc.trans (le_of_lt hj),hs,pending,
        sameQueue_iff.2 ⟨ht.trans ht',hn.trans hn',hv.trans hv'⟩,.merged hr into leads⟩

theorem Sound.pending_into (h : Sound t) {j : Nat} (hr : t[i]? = some r) (pending : r.status = .pending)
    (into : r.into = some j) : False := by
  obtain ⟨-,none⟩ | ⟨duplicate,-⟩ := h.marked i r hr
  · rw [none] at into
    cases into
  · rw [pending] at duplicate
    cases duplicate

theorem Sound.root_unique (h : Sound t) {c d : Nat}
    (hc : Leads t i c) (hd : Leads t i d) (hr : t[c]? = some r)
    (hs : t[d]? = some s) (pr : r.status = .pending) (ps : s.status = .pending) : c = d := by
  induction hc with
  | here =>
    cases hd with
    | here => rfl
    | merged hu into =>
      rw [hr] at hu
      cases hu
      exact (h.pending_into hr pr into).elim
  | merged hu into _ ih =>
    cases hd with
    | here =>
      rw [hs] at hu
      cases hu
      exact (h.pending_into hs ps into).elim
    | merged hv into' more =>
      rw [hu] at hv
      cases hv
      rw [into] at into'
      cases into'
      exact ih more hr

/-- The queue: pending rows that are alike are matched ones, or without a MAC address and taken
while their IP address had several; the rows that have come together, by whatever merges, carry
one MAC address; and each row's merges lead to one pending row. -/
structure Queue (t : List (ScanResult Val)) : Prop where
  distinct : ∀ (i j : Nat) r s, i < j → t[i]? = some r → t[j]? = some s → r.status = .pending →
    s.status = .pending → r.integration = false → s.integration = false → Alike r s →
    r.state ≠ .matched → known r.mac = none ∧ s.ambiguous = true
  oneMac : ∀ (i j c : Nat) r s m n, Leads t i c → Leads t j c → t[i]? = some r → t[j]? = some s →
    known r.mac = some m → known s.mac = some n → m = n
  rooted : ∀ (i : Nat) r, t[i]? = some r → ∃ c, (∃ s, c ≤ i ∧ t[c]? = some s ∧
    s.status = .pending ∧ r.sameQueue s = true ∧ Leads t i c) ∧
      ∀ d s, Leads t i d → t[d]? = some s → s.status = .pending → d = c

/-- What taking a finding does: it loses no column that is not empty, a row is marked as a
duplicate of one earlier row that is and stays pending, and a finding alike to a pending row is a
duplicate, unless it is matched, or ambiguous. -/
structure Taken (truthy : Val → Bool) (t : List (ScanResult Val)) (f : Finding Val)
    (t' : List (ScanResult Val)) : Prop where
  columns : ∀ (i : Nat) r, t[i]? = some r → ∃ r', t'[i]? = some r' ∧
    r'.toFinding = { r.toFinding with
      mac := r'.mac
      fields := r'.fields } ∧
    (∀ m, known r.mac = some m → r'.mac = r.mac) ∧
    ∀ a, truthy (r.fields a) = true → r'.fields a = r.fields a
  marked : ∀ (i : Nat) r', t'[i]? = some r' →
    (i = t.length ∨ ∃ r, t[i]? = some r ∧ r.status = .pending) →
    r'.status = .pending ∨ (r'.status = .duplicate ∧ ∃ c s s', c < i ∧ r'.into = some c ∧
      t[c]? = some s ∧ s.status = .pending ∧ t'[c]? = some s' ∧ s'.status = .pending ∧
      r'.sameQueue s' = true)
  repeated : ∀ (i : Nat) r, t[i]? = some r → r.status = .pending → r.integration = false →
    f.row.integration = false → Alike r f.row → r.state ≠ .matched → ∃ r', t'[t.length]? = some r' ∧
      (r'.status = .duplicate ∨ (known r.mac = none ∧ r'.ambiguous = true))

theorem Sound.leads_there (h : Sound t) {c : Nat}
    (leads : Leads t i c) (hr : t[i]? = some r) : ∃ s, t[c]? = some s := by
  induction leads generalizing r with
  | here => exact ⟨r,hr⟩
  | merged hr' into _ ih =>
    rw [hr] at hr'
    cases hr'
    obtain ⟨-,none⟩ | ⟨-,j,u,-,into',hu,-⟩ := h.marked _ _ hr
    · rw [none] at into
      cases into
    · rw [into'] at into
      cases into
      exact ih hu

theorem Sound.queue (h : Sound t) : Queue t where
  __ := h
  oneMac i j c r s m n hi hj hr hs hm hn := by
    obtain ⟨u,hu⟩ := h.leads_there hi hr
    exact Option.some.inj ((h.mac_leads hi hr hu hm).symm.trans (h.mac_leads hj hs hu hn))
  rooted i r hr := by
    obtain ⟨c,s,hc,hs,pending,same,leads⟩ := h.root i r hr
    exact ⟨c,⟨s,hc,hs,pending,same,leads⟩,fun d u hd hu pu =>
      h.root_unique hd leads hu hs pu pending⟩

theorem Taken.snoc {f : Finding Val} {x : ScanResult Val}
    (pending : x.status = .pending)
    (reason : (f.row.state = .matched ∨ f.row.integration = true) ∨
      (known f.row.mac = none ∧ x.ambiguous = true)) (normal : ∀ r ∈ t, NormalMac r.mac) :
    Taken truthy t f (t++[x]) where
  columns _ r hr := ⟨r,get_old hr,rfl,fun _ _ => rfl,fun _ _ => rfl⟩
  marked i r' hr' was := by
    obtain ⟨hi,old⟩ | ⟨-,rfl⟩ := get_snoc hr'
    · obtain rfl | ⟨r,hr,pr⟩ := was
      · omega
      · rw [hr] at old
        cases old
        exact .inl pr
    · exact .inl pending
  repeated i r hr _ _ own alike state := by
    refine ⟨x,List.getElem?_concat_length,?_⟩
    obtain (matched | integration) | ⟨none,ambiguous⟩ := reason
    · exact absurd (alike.state.trans matched) state
    · rw [integration] at own
      cases own
    · have mac := alike.mac
      rw [(normal r (mem_of_getElem? hr)).1,(row_normal f).1,none] at mac
      exact .inr ⟨mac,ambiguous⟩

theorem Taken.merge (h : Sound t) {f : Finding Val}
    {c : ScanResult Val × Nat}
    (hc : chosen (t++[f.row]) f.row = c::others) (hn : (f.row,t.length) ∈ c::others) :
    Taken truthy t f (merge truthy (t++[f.row]) c.1 c.2 others) := by
  obtain ⟨c,ci⟩ := c
  have normal := snoc_normal h.normal f
  have filled : Filled truthy c (others.map Prod.fst) _ := fold_filled c (others.map Prod.fst)
  obtain ⟨at_c,candidate,-⟩ := (mem_chosen normal).1 (hc ▸ mem_cons_self)
  obtain ⟨pending,place,-,-⟩ := isCandidate_iff.1 candidate
  have get : ∀ (i : Nat), (PendingDuplicates.merge truthy (t++[f.row]) c ci others)[i]? =
      (t++[f.row])[i]?.map fun r => if i = ci then (others.map Prod.fst).foldl (fill truthy) c
        else if i ∈ others.map Prod.snd then { r with
          status := .duplicate
          into := some ci } else r := fun i => List.getElem?_mapIdx
  have others_lt : ∀ {i}, i ∈ others.map Prod.snd → ci < i := by
    intro i hi
    obtain ⟨q,hq,rfl⟩ := mem_map.1 hi
    exact chosen_places hc q hq
  constructor
  · intro i r hr
    rw [get,get_old hr]
    by_cases hi : i = ci
    · subst hi
      rw [@get_old _ t f.row _ _ hr] at at_c
      cases at_c
      rw [Option.map_some,if_pos rfl]
      exact ⟨_,rfl,congrArg _ filled.columns,filled.mac,filled.fields⟩
    · rw [Option.map_some,if_neg hi]
      refine ⟨_,rfl,?_⟩
      split <;> exact ⟨rfl,fun _ _ => rfl,fun _ _ => rfl⟩
  · intro i r' hr' was
    obtain ⟨r,hr,hi | ⟨hi,ho,rfl⟩ | ⟨hi,ho,rfl⟩⟩ := merge_get (p := (c,ci)) hr'
    · obtain ⟨-,rfl⟩ := hi
      refine .inl ?_
      rw [filled.columns]
      exact pending
    · obtain ⟨q,hq,rfl⟩ := mem_map.1 ho
      have hq' : q ∈ (c,ci)::others := mem_cons_of_mem _ hq
      obtain ⟨at_q,candidate',-⟩ := (mem_chosen normal).1 (hc ▸ hq')
      rw [at_q] at hr
      cases hr
      have lt := others_lt ho
      have bound := (List.getElem?_eq_some_iff.1 at_q).1
      rw [length_append,length_singleton] at bound
      have old : t[ci]? = some c := by
        obtain ⟨-,old⟩ | ⟨new,-⟩ := get_snoc at_c
        · exact old
        · simp only at new lt
          omega
      refine .inr ⟨rfl,ci,c,_,lt,rfl,old,pending,by rw [get,at_c,Option.map_some,if_pos rfl],?_,?_⟩
      · rw [filled.columns]
        exact pending
      · obtain ⟨ht,hn,hv⟩ := sameQueue_iff.1 (isCandidate_iff.1 candidate').2.1
        obtain ⟨ht',hn',hv'⟩ := sameQueue_iff.1 place
        rw [filled.columns]
        exact sameQueue_iff.2 ⟨ht.trans ht'.symm,hn.trans hn'.symm,hv.trans hv'.symm⟩
    · refine .inl ?_
      obtain ⟨-,old⟩ | ⟨rfl,-⟩ := get_snoc hr
      · obtain rfl | ⟨u,hu,pu⟩ := was
        · have := (List.getElem?_eq_some_iff.1 old).1
          omega
        · rw [hu] at old
          cases old
          exact pu
      · cases mem_cons.1 hn with
        | inl here => exact absurd (congrArg Prod.snd here) hi
        | inr there => exact absurd (mem_map_of_mem (f := Prod.snd) there) ho
  · intro i r hr pr own _ alike _
    rw [get,List.getElem?_concat_length,Option.map_some]
    refine ⟨_,rfl,.inl ?_⟩
    cases mem_cons.1 hn with
    | inr there =>
      have ho := mem_map_of_mem (f := Prod.snd) there
      rw [if_neg (ne_of_gt (others_lt ho)),if_pos ho]
    | inl here =>
      -- were the finding the first of the chosen rows, the one it repeats would stand before it
      cases here
      have none : others = [] := by
        refine eq_nil_iff_forall_not_mem.2 fun q hq => ?_
        have lt := chosen_places hc q hq
        have bound := (List.getElem?_eq_some_iff.1
          ((mem_chosen normal).1 (hc ▸ mem_cons_of_mem _ hq)).1).1
        rw [length_append,length_singleton] at bound
        simp only at lt
        omega
      subst none
      have there := alike_chosen normal hc filled mem_cons_self (get_old hr) pr own alike
      rw [hc,mem_singleton] at there
      have same : i = t.length := congrArg Prod.snd there
      exact absurd same (ne_of_lt (List.getElem?_eq_some_iff.1 hr).1)

theorem Sound.taken (h : Sound t) (f : Finding Val) :
    Taken truthy t f (PendingDuplicates.ingest truthy t f) := by
  obtain ⟨left,ht⟩ | ⟨none,ht⟩ | ⟨c,others,hc,hn,ht⟩ := @ingest_cases Val truthy t h.normal f
  · rw [ht]
    exact .snoc rfl (.inl left) h.normal
  · rw [ht]
    exact .snoc rfl (.inr ⟨none,rfl⟩) h.normal
  · rw [ht]
    exact .merge h hc hn

end

/-- After any findings the queue is as it should be, and so is what the next one does to it. -/
theorem queue_kept (truthy : Val → Bool) (fs : List (Finding Val)) (f : Finding Val) :
    Queue (ingestAll truthy fs) ∧
      Taken truthy (ingestAll truthy fs) f (ingest truthy (ingestAll truthy fs) f) :=
  ⟨(ingestAll_sound fs).queue,(ingestAll_sound fs).taken f⟩

/-! Two devices at one address, and the address seen alone, twice. -/

def observation (mac : Option String) : Finding Unit where
  ip := "192.168.0.66".toList
  mac := mac.map String.toList
  fields := fun _ => ()

def observations : List (Finding Unit) :=
  [observation (some "00:F3:61:CC:96:E0"),observation (some "AA:BB:CC:DD:EE:FF"),observation none,
    observation none]

/-- The second observation of the address alone stays pending beside the first. -/
theorem ambiguous_repeated : ∃ r s, (ingestAll (fun _ => false) observations)[2]? = some r ∧
    (ingestAll (fun _ => false) observations)[3]? = some s ∧ r.status = .pending ∧
    s.status = .pending ∧ r.integration = false ∧ s.integration = false ∧ Alike r s ∧
    r.state ≠ .matched := by
  have third : (ingestAll (fun _ => false) observations)[2]? =
      some { (observation none).row with ambiguous := true } := by rfl
  have fourth : (ingestAll (fun _ => false) observations)[3]? =
      some { (observation none).row with ambiguous := true } := by rfl
  exact ⟨_,_,third,fourth,rfl,rfl,rfl,rfl,⟨rfl,rfl,rfl,rfl,rfl,rfl⟩,nofun⟩

end CircuitBreaker.PendingDuplicates
