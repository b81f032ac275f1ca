import CircuitBreaker.TextWords
import Mathlib.Data.List.Induction
import Mathlib.Data.List.TakeWhile
import Mathlib.Order.Defs.LinearOrder
import Mathlib.Algebra.GroupWithZero.Nat

/-! IP networks in text, as Python's `ipaddress` reads and writes them: dotted quads, colon
groups with one run of zeros left out, zones, prefix lengths and netmasks. -/

namespace IpText
open List Option

abbrev Text := List Char

/-! Numbers of an address. -/

def parseOctet (t : Text) : Option Nat :=
  if t = [] ∨ t.all Char.isDigit = false ∨ 3 < t.length ∨ (t ≠ ['0'] ∧ t.head? = some '0') ∨
      255 < Nat.ofDigitChars 10 t 0 then none
  else some (Nat.ofDigitChars 10 t 0)

variable {n : Nat}

theorem parseOctet_digits (h : n < 256) : parseOctet (Nat.toDigits 10 n) = some n := by
  have all : ∀ n : Fin 256, parseOctet (Nat.toDigits 10 n) = some n.val := by decide +kernel
  exact all ⟨n,h⟩

variable {t s : Text} {α β : Type} {read : β → Option α} {l : List α}

theorem parseOctet_lt (h : parseOctet t = some n) : n < 256 := by
  unfold parseOctet at h
  split at h <;> cases h
  rename_i hn
  simp only [not_or,not_lt] at hn
  omega

def isHex (c : Char) : Bool :=
  c.isDigit || 97 ≤ c.toNat && c.toNat ≤ 102 || 65 ≤ c.toNat && c.toNat ≤ 70

def hexDigit (c : Char) : Nat :=
  if c.toNat ≤ 57 then c.toNat-48 else if c.toNat ≤ 70 then c.toNat-55 else c.toNat-87

def hexValue (t : Text) : Nat := t.foldl (fun n c => 16*n+hexDigit c) 0

variable {c : Char}

theorem hexDigit_lt (h : isHex c = true) : hexDigit c < 16 := by
  simp only [isHex,Char.isDigit,Bool.or_eq_true,Bool.and_eq_true,decide_eq_true_eq] at h
  have h : (48 ≤ c.toNat ∧ c.toNat ≤ 57) ∨ (97 ≤ c.toNat ∧ c.toNat ≤ 102) ∨
      (65 ≤ c.toNat ∧ c.toNat ≤ 70) := by
    obtain (⟨hl,hu⟩ | h) | h := h
    · exact .inl ⟨hl,hu⟩
    · exact .inr (.inl h)
    · exact .inr (.inr h)
  unfold hexDigit
  split
  · omega
  · split <;> omega

theorem hexValue_append (t : Text) (c : Char) : hexValue (t++[c]) = 16*hexValue t+hexDigit c := by
  simp [hexValue]

theorem hexValue_lt (h : ∀ c ∈ t, isHex c = true) : hexValue t < 16^t.length := by
  induction t using List.reverseRecOn with
  | nil => simp [hexValue]
  | append_singleton t c ih =>
    have hc := hexDigit_lt (h c (by simp))
    have ht := ih fun d hd => h d (by simp [hd])
    rw [hexValue_append,length_append,length_singleton,Nat.pow_succ]
    omega

theorem hex_digitChar (h : n < 16) :
    isHex n.digitChar = true ∧ hexDigit n.digitChar = n := by
  have all : ∀ n : Fin 16, isHex (Nat.digitChar n) = true ∧ hexDigit (Nat.digitChar n) = n.val := by
    decide
  exact all ⟨n,h⟩

theorem hex_toDigits (n : Nat) :
    (∀ c ∈ Nat.toDigits 16 n, isHex c = true) ∧ hexValue (Nat.toDigits 16 n) = n := by
  induction n using Nat.strongRecOn with
  | ind n ih =>
    by_cases hn : n < 16
    · rw [Nat.toDigits_of_lt_base hn]
      obtain ⟨hx,hv⟩ := hex_digitChar hn
      exact ⟨by simpa using hx,by simp [hexValue,hv]⟩
    · rw [Nat.toDigits_of_base_le (by decide) (by omega)]
      obtain ⟨hx,hv⟩ := ih (n/16) (by omega)
      obtain ⟨dx,dv⟩ := hex_digitChar (n := n%16) (by omega)
      refine ⟨fun c hc => ?_,?_⟩
      · rcases mem_append.mp hc with hc | hc
        · exact hx c hc
        · rw [mem_singleton.mp hc]
          exact dx
      · rw [hexValue_append,hv,dv]
        omega

/-- A hextet as it is written: lower case, no leading zeros. -/
def hexText (n : Nat) : Text := Nat.toDigits 16 n

def parseHextet (t : Text) : Option Nat :=
  if t = [] ∨ t.all isHex = false ∨ 4 < t.length then none else some (hexValue t)

theorem parseHextet_hexText (h : n < 65536) : parseHextet (hexText n) = some n := by
  obtain ⟨hx,hv⟩ := hex_toDigits n
  have hl : (hexText n).length ≤ 4 := (Nat.length_toDigits_le_iff (by decide) (by decide)).mpr h
  have ha : (hexText n).all isHex = true := all_eq_true.mpr hx
  unfold parseHextet
  rw [if_neg]
  · exact congrArg some hv
  · rintro (he | he | he)
    · exact Nat.toDigits_ne_nil he
    · simp [ha] at he
    · omega

theorem parseHextet_lt (h : parseHextet t = some n) : n < 65536 := by
  unfold parseHextet at h
  split at h <;> cases h
  rename_i hn
  simp only [not_or,not_lt,Bool.not_eq_false] at hn
  have hv := hexValue_lt (all_eq_true.mp hn.2.1)
  have hp : 16^t.length ≤ 16^4 := Nat.pow_le_pow_right (by decide) hn.2.2
  omega

/-! Four octets. -/

def parse4 (s : Text) : Option Nat :=
  match (s.splitOn '.').mapM parseOctet with
  | some [a,b,c,d] => some (((a*256+b)*256+c)*256+d)
  | _ => none

def text4 (n : Nat) : Text :=
  ['.'].intercalate ([n/16777216,n/65536%256,n/256%256,n%256].map (Nat.toDigits 10))

theorem digits_not_mem (hc : c.isDigit = false) (n : Nat) : c ∉ Nat.toDigits 10 n := by
  intro h
  have hd := Nat.isDigit_of_mem_toDigits (b := 10) (n := n) (by decide) (by decide) h
  rw [hc] at hd
  cases hd

/-- A list written member by member is read back. -/
theorem mapM_reads {write : α → β}
    (h : ∀ a ∈ l, read (write a) = some a) : (l.map write).mapM read = some l := by
  induction l with
  | nil => rfl
  | cons a l ih =>
    rw [map_cons,mapM_cons,h a (by simp),ih fun b hb => h b (by simp [hb])]
    rfl

theorem splitOn_text4 (n : Nat) : (text4 n).splitOn '.' =
    [n/16777216,n/65536%256,n/256%256,n%256].map (Nat.toDigits 10) := by
  refine splitOn_intercalate '.' (fun l hl => ?_) (by simp)
  obtain ⟨m,_,rfl⟩ := mem_map.mp hl
  exact digits_not_mem (by decide) m

theorem parse4_text4 (h : n < 2^32) : parse4 (text4 n) = some n := by
  have read : ([n/16777216,n/65536%256,n/256%256,n%256].map (Nat.toDigits 10)).mapM parseOctet =
      some [n/16777216,n/65536%256,n/256%256,n%256] := by
    refine mapM_reads fun m hm => parseOctet_digits ?_
    simp only [mem_cons,not_mem_nil,or_false] at hm
    omega
  rw [parse4,splitOn_text4,read]
  simp only [Option.some.injEq]
  omega

theorem mapM_some_mem {ts : List β}
    (h : ts.mapM read = some l) : ts.length = l.length ∧ ∀ a ∈ l, ∃ t ∈ ts, read t = some a := by
  induction ts generalizing l with
  | nil =>
    cases h
    exact ⟨rfl,nofun⟩
  | cons t ts ih =>
    rw [mapM_cons] at h
    cases ht : read t with
    | none => simp [ht] at h
    | some b =>
      cases hts : ts.mapM read with
      | none => simp [ht,hts] at h
      | some bs =>
        simp only [ht,hts,bind_eq_bind,bind_some,Option.pure_def,Option.some.injEq] at h
        subst h
        obtain ⟨hl,hm⟩ := ih hts
        refine ⟨by simp [hl],fun a ha => ?_⟩
        rcases mem_cons.mp ha with rfl | ha
        · exact ⟨t,by simp,ht⟩
        · obtain ⟨u,hu,hr⟩ := hm a ha
          exact ⟨u,by simp [hu],hr⟩

theorem parse4_lt (h : parse4 s = some n) : n < 2^32 := by
  unfold parse4 at h
  split at h
  case h_1 a b c d hs =>
    have small : ∀ m ∈ [a,b,c,d], m < 256 := fun m hm => by
      obtain ⟨_,_,ht⟩ := (mapM_some_mem hs).2 m hm
      exact parseOctet_lt ht
    have ha := small a (by simp)
    have hb := small b (by simp)
    have hc := small c (by simp)
    have hd := small d (by simp)
    cases h
    omega
  · cases h

/-! Eight hextets. -/

def hextets : Nat → Nat → List Nat
  | 0,_ => []
  | k+1,n => hextets k (n/65536)++[n%65536]

def hextetsValue (hs : List Nat) : Nat := hs.foldl (fun n h => 65536*n+h) 0

theorem hextets_length (k n : Nat) : (hextets k n).length = k := by
  induction k generalizing n with
  | zero => rfl
  | succ k ih => simp [hextets,ih]

theorem hextets_lt {k h : Nat} (hm : h ∈ hextets k n) : h < 65536 := by
  induction k generalizing n with
  | zero => cases hm
  | succ k ih =>
    rcases mem_append.mp hm with hm | hm
    · exact ih hm
    · rw [mem_singleton.mp hm]
      omega

theorem hextetsValue_append (hs : List Nat) (h : Nat) :
    hextetsValue (hs++[h]) = 65536*hextetsValue hs+h := by
  simp [hextetsValue]

theorem hextetsValue_hextets (k n : Nat) (h : n < 65536^k) : hextetsValue (hextets k n) = n := by
  induction k generalizing n with
  | zero =>
    have hn : n = 0 := by simpa using h
    subst hn
    rfl
  | succ k ih =>
    have hk : n/65536 < 65536^k := by
      rw [Nat.pow_succ] at h
      omega
    rw [hextets,hextetsValue_append,ih _ hk]
    omega

variable {hs : List Nat}

theorem hextetsValue_lt (h : ∀ a ∈ hs, a < 65536) :
    hextetsValue hs < 65536^hs.length := by
  induction hs using List.reverseRecOn with
  | nil => simp [hextetsValue]
  | append_singleton hs a ih =>
    have ha := h a (by simp)
    have hv := ih fun b hb => h b (by simp [hb])
    rw [hextetsValue_append,length_append,length_singleton,Nat.pow_succ]
    omega

/-- The loop that finds the first longest run of zero hextets. -/
structure ZeroRun where
  index : Nat := 0
  start : Option Nat := none
  len : Nat := 0
  bestStart : Nat := 0
  bestLen : Nat := 0

def ZeroRun.step (s : ZeroRun) (hextet : Nat) : ZeroRun :=
  if hextet = 0 then
    let start := s.start.getD s.index
    if s.bestLen < s.len+1 then ⟨s.index+1,some start,s.len+1,start,s.len+1⟩
    else ⟨s.index+1,some start,s.len+1,s.bestStart,s.bestLen⟩
  else ⟨s.index+1,none,0,s.bestStart,s.bestLen⟩

/-- The current run ends the hextets read so far, and the best one lies within them. -/
structure ZeroRun.Covers (s : ZeroRun) (hs : List Nat) : Prop where
  index : s.index = hs.length
  inside : s.start.getD s.index+s.len = hs.length
  zeros : hs.drop (s.start.getD s.index) = List.replicate s.len 0
  bestInside : s.bestStart+s.bestLen ≤ hs.length
  bestZeros : (hs.drop s.bestStart).take s.bestLen = List.replicate s.bestLen 0

theorem take_drop_append {b : Nat} (h : b+n ≤ l.length) (a : α) :
    ((l++[a]).drop b).take n = (l.drop b).take n := by
  rw [drop_append_of_le_length (by omega),take_append_of_le_length]
  rw [length_drop]
  omega

theorem ZeroRun.Covers.step {s : ZeroRun} (h : s.Covers hs) (a : Nat) :
    (s.step a).Covers (hs++[a]) := by
  have hi := h.index
  have hin := h.inside
  have best : (((hs++[a]).drop s.bestStart).take s.bestLen) = List.replicate s.bestLen 0 := by
    rw [take_drop_append h.bestInside,h.bestZeros]
  have hb := h.bestInside
  unfold ZeroRun.step
  split
  case isTrue ha =>
    subst ha
    have run : (hs++[0]).drop (s.start.getD s.index) = List.replicate (s.len+1) 0 := by
      rw [drop_append_of_le_length (by omega),h.zeros,replicate_succ']
    split
    · refine ⟨by simp [hi],?_,run,?_,?_⟩
      · simp only [getD_some,length_append,length_singleton]
        omega
      · simp only [length_append,length_singleton]
        omega
      · simp only
        rw [run,take_of_length_le (by simp)]
    · refine ⟨by simp [hi],?_,run,?_,best⟩
      · simp only [getD_some,length_append,length_singleton]
        omega
      · simp only [length_append,length_singleton]
        omega
  case isFalse =>
    refine ⟨by simp [hi],by simp [hi],by simp [hi],?_,best⟩
    simp only [length_append,length_singleton]
    omega

theorem covers_foldl (hs : List Nat) : (hs.foldl ZeroRun.step {}).Covers hs := by
  induction hs using List.reverseRecOn with
  | nil => exact ⟨rfl,rfl,rfl,Nat.le_refl 0,rfl⟩
  | append_singleton hs a ih =>
    rw [foldl_append]
    exact ih.step a

/-- A list of groups, or the empty group that marks an end of the text. -/
def edge (groups : List Text) : List Text := if groups = [] then [[]] else groups

/-- The colon groups of an address: its longest run of two or more zeros is left out. -/
def groups (hs : List Nat) : List Text :=
  let run := hs.foldl ZeroRun.step {}
  if 1 < run.bestLen then
    edge ((hs.take run.bestStart).map hexText) ++
      []::edge ((hs.drop (run.bestStart+run.bestLen)).map hexText)
  else hs.map hexText

def text6 (hs : List Nat) : Text := [':'].intercalate (groups hs)

/-- An IPv4 address in the last group stands for two hextets. -/
def spellQuad (parts : List Text) : Option (List Text) :=
  if '.' ∈ parts.getLastD [] then
    (parse4 (parts.getLastD [])).map fun n =>
      parts.dropLast++[hexText (n/65536),hexText (n%65536)]
  else some parts

/-- The hextets before a `::` or after it; an empty group is only allowed at the very end. -/
def side (outer : Text) (inner groups : List Text) : Option (List Text) :=
  if outer = [] then if inner = [] then some [] else none else some groups

/-- The eight hextets of the groups of an address. An empty group between the first and the
last is the `::`, and there is at most one. -/
def readGroups : List Text → Option (List Nat)
  | [] => none
  | first::rest =>
    let last := rest.getLastD []
    let before := rest.dropLast.takeWhile (· ≠ [])
    match rest.dropLast.dropWhile (· ≠ []) with
    | [] =>
      if rest.length = 7 ∧ first ≠ [] ∧ last ≠ [] then (first::rest).mapM parseHextet else none
    | _::after =>
      if [] ∈ after then none
      else do
        let hi ← side first before (first::before)
        let lo ← side last after (after++[last])
        if hi.length+lo.length < 8 then
          let high ← hi.mapM parseHextet
          let low ← lo.mapM parseHextet
          some (high++List.replicate (8-(hi.length+lo.length)) 0++low)
        else none

def parse6 (s : Text) : Option (List Nat) :=
  let parts := s.splitOn ':'
  if parts.length < 3 then none
  else do
    let parts ← spellQuad parts
    if 9 < parts.length then none else readGroups parts

theorem edge_cons {hi : List Text} (h : ∀ t ∈ hi, t ≠ []) : ∃ first before,
    edge hi = first::before ∧ side first before (first::before) = some hi ∧
    ∀ t ∈ before, t ≠ [] := by
  cases hi with
  | nil => exact ⟨[],[],rfl,rfl,nofun⟩
  | cons t ts =>
    refine ⟨t,ts,rfl,?_,fun u hu => h u (by simp [hu])⟩
    rw [side,if_neg (h t (by simp))]

theorem edge_snoc {lo : List Text} (h : ∀ t ∈ lo, t ≠ []) : ∃ after last,
    edge lo = after++[last] ∧ side last after (after++[last]) = some lo ∧ [] ∉ after := by
  rcases eq_nil_or_concat lo with rfl | ⟨ts,t,rfl⟩
  · exact ⟨[],[],rfl,rfl,by simp⟩
  · refine ⟨ts,t,by simp [edge],?_,fun he => h [] (by simp [he]) rfl⟩
    rw [side,if_neg (h t (by simp)),concat_eq_append]

theorem readGroups_skip {hi lo : List Text} (hh : ∀ t ∈ hi, t ≠ []) (hl : ∀ t ∈ lo, t ≠ [])
    (h : hi.length+lo.length < 8) {high low : List Nat} (rh : hi.mapM parseHextet = some high)
    (rl : lo.mapM parseHextet = some low) : readGroups (edge hi++[]::edge lo) =
      some (high++List.replicate (8-(hi.length+lo.length)) 0++low) := by
  obtain ⟨first,before,eh,sh,nb⟩ := edge_cons hh
  obtain ⟨after,last,el,sl,na⟩ := edge_snoc hl
  have last' : (before++[]::(after++[last])).getLastD [] = last := by
    rw [getLastD_eq_getLast?,
      show before++[]::(after++[last]) = (before++[]::after)++[last] by simp,
      getLast?_concat,getD_some]
  have init : (before++[]::(after++[last])).dropLast = before++[]::after := by
    rw [show before++[]::(after++[last]) = (before++[]::after)++[last] by simp,
      dropLast_concat]
  have nb' : ∀ t ∈ before, decide (t ≠ []) = true := fun t ht => by simpa using nb t ht
  have taken : (before++[]::after).takeWhile (· ≠ []) = before := by
    rw [takeWhile_append_of_pos nb']
    simp
  have dropped : (before++[]::after).dropWhile (· ≠ []) = []::after := by
    rw [dropWhile_append_of_pos nb']
    simp
  rw [eh,el,cons_append,readGroups]
  simp only [last',init,taken,dropped,na,if_false,sh,sl,bind_eq_bind,bind_some,h, if_true,rh,rl]

theorem readGroups_full {ts : List Text} (hl : ts.length = 8) (hn : ∀ t ∈ ts, t ≠ []) :
    readGroups ts = ts.mapM parseHextet := by
  cases ts with
  | nil => simp at hl
  | cons first rest =>
    have inner : rest.dropLast.dropWhile (· ≠ []) = [] := by
      rw [dropWhile_eq_nil_iff]
      intro t ht
      simpa using hn t (mem_cons_of_mem _ (dropLast_subset _ ht))
    have hr : rest ≠ [] := by
      rintro rfl
      simp at hl
    have hlast : rest.getLastD [] ≠ [] := by
      rw [getLastD_eq_getLast?,getLast?_eq_some_getLast hr]
      exact hn _ (mem_cons_of_mem _ (getLast_mem hr))
    simp only [readGroups,inner]
    rw [if_pos]
    exact ⟨by simpa using hl,hn first (by simp),hlast⟩

theorem hexText_ne_nil {hs : List Nat} {t : Text} (h : t ∈ hs.map hexText) : t ≠ [] := by
  obtain ⟨n,_,rfl⟩ := mem_map.mp h
  exact Nat.toDigits_ne_nil

theorem mapM_hexText {hs : List Nat} (h : ∀ a ∈ hs, a < 65536) :
    (hs.map hexText).mapM parseHextet = some hs :=
  mapM_reads fun a ha => parseHextet_hexText (h a ha)

theorem readGroups_groups (hl : hs.length = 8) (h : ∀ a ∈ hs, a < 65536) :
    readGroups (groups hs) = some hs := by
  have covers := covers_foldl hs
  unfold groups
  simp only
  split
  case isTrue hb =>
    generalize hs.foldl ZeroRun.step {} = run at covers hb
    have inside := covers.bestInside
    have sizes : ((hs.take run.bestStart).map hexText).length+
        ((hs.drop (run.bestStart+run.bestLen)).map hexText).length = 8-run.bestLen := by
      simp only [length_map,length_take,length_drop]
      omega
    rw [readGroups_skip (fun t => hexText_ne_nil) (fun t => hexText_ne_nil) (by omega)
      (mapM_hexText fun a ha => h a (mem_of_mem_take ha))
      (mapM_hexText fun a ha => h a (mem_of_mem_drop ha)),sizes]
    have zeros : 8-(8-run.bestLen) = run.bestLen := by omega
    rw [zeros,←covers.bestZeros,←drop_drop,append_assoc,take_append_drop, take_append_drop]
  case isFalse =>
    rw [readGroups_full (by simpa using hl) (fun t => hexText_ne_nil),mapM_hexText h]

theorem groups_mem (h : t ∈ groups hs) : ∀ c ∈ t, isHex c = true := by
  have written : ∀ {l : List Nat}, t ∈ l.map hexText → ∀ c ∈ t, isHex c = true := fun hm => by
    obtain ⟨n,_,rfl⟩ := mem_map.mp hm
    exact (hex_toDigits n).1
  have ends : ∀ {l : List Nat}, t ∈ edge (l.map hexText) → ∀ c ∈ t, isHex c = true := fun hm => by
    unfold edge at hm
    split at hm
    · rw [mem_singleton.mp hm]
      simp
    · exact written hm
  unfold groups at h
  simp only at h
  split at h
  · rcases mem_append.mp h with h | h
    · exact ends h
    · rcases mem_cons.mp h with rfl | h
      · simp
      · exact ends h
  · exact written h

theorem groups_length (hl : hs.length = 8) :
    3 ≤ (groups hs).length ∧ (groups hs).length ≤ 9 := by
  have covers := covers_foldl hs
  have size : ∀ l : List Text, 1 ≤ (edge l).length ∧ (edge l).length ≤ l.length+1 := fun l => by
    unfold edge
    split
    case isTrue he => simp [he]
    case isFalse he =>
      have hp := length_pos_iff.mpr he
      omega
  unfold groups
  simp only
  split
  case isTrue hb =>
    generalize hs.foldl ZeroRun.step {} = run at covers hb
    have inside := covers.bestInside
    have hi := size ((hs.take run.bestStart).map hexText)
    have lo := size ((hs.drop (run.bestStart+run.bestLen)).map hexText)
    simp only [length_map,length_take,length_drop] at hi lo
    rw [length_append,length_cons]
    omega
  case isFalse =>
    rw [length_map]
    omega

theorem isHex_ne {d : Char} (hc : isHex c = true) (hd : isHex d = false) : c ≠ d := by
  rintro rfl
  rw [hc] at hd
  cases hd

theorem parse6_text6 (hl : hs.length = 8) (h : ∀ a ∈ hs, a < 65536) :
    parse6 (text6 hs) = some hs := by
  obtain ⟨h3,h9⟩ := groups_length hl
  have hne : groups hs ≠ [] := by
    rintro he
    simp [he] at h3
  have parts : (text6 hs).splitOn ':' = groups hs :=
    splitOn_intercalate ':' (fun t ht hm => isHex_ne (groups_mem ht _ hm) (by decide) rfl) hne
  have dotless : '.' ∉ (groups hs).getLastD [] := by
    rw [getLastD_eq_getLast?,getLast?_eq_some_getLast hne]
    exact fun hm => isHex_ne (groups_mem (getLast_mem hne) _ hm) (by decide) rfl
  rw [parse6]
  simp only [parts]
  rw [if_neg (by omega),spellQuad,if_neg dotless]
  simp only [bind_eq_bind,bind_some]
  rw [if_neg (by omega),readGroups_groups hl h]

theorem readGroups_shape {parts : List Text} (h : readGroups parts = some hs) :
    hs.length = 8 ∧ ∀ a ∈ hs, a < 65536 := by
  have small : ∀ {ts : List Text} {l : List Nat}, ts.mapM parseHextet = some l →
      ∀ a ∈ l, a < 65536 := fun hr a ha => by
    obtain ⟨_,_,ht⟩ := (mapM_some_mem hr).2 a ha
    exact parseHextet_lt ht
  cases parts with
  | nil => cases h
  | cons first rest =>
    simp only [readGroups] at h
    split at h
    · split at h
      case isTrue hc =>
        have hl := (mapM_some_mem h).1
        rw [length_cons] at hl
        exact ⟨by omega,small h⟩
      · cases h
    · split at h
      · cases h
      · simp only [bind_eq_bind,bind_eq_some_iff] at h
        obtain ⟨hi,_,lo,_,h⟩ := h
        split at h
        case isTrue hc =>
          simp only [bind_eq_some_iff] at h
          obtain ⟨high,hh,low,hl,h⟩ := h
          cases h
          have lh := (mapM_some_mem hh).1
          have ll := (mapM_some_mem hl).1
          refine ⟨by simp only [length_append,length_replicate]; omega,fun a ha => ?_⟩
          rcases mem_append.mp ha with ha | ha
          · rcases mem_append.mp ha with ha | ha
            · exact small hh a ha
            · rw [(mem_replicate.mp ha).2]
              decide
          · exact small hl a ha
        · cases h

theorem parse6_shape (h : parse6 s = some hs) :
    hs.length = 8 ∧ ∀ a ∈ hs, a < 65536 := by
  unfold parse6 at h
  simp only at h
  split at h
  · cases h
  · simp only [bind_eq_bind,bind_eq_some_iff] at h
    obtain ⟨parts,_,h⟩ := h
    split at h
    · cases h
    · exact readGroups_shape h

/-! Addresses. -/

inductive Version where
  | v4 | v6
  deriving DecidableEq

def Version.width : Version → Nat
  | .v4 => 32
  | .v6 => 128

/-- An address, with the zone of an IPv6 one; the empty zone is no zone. -/
structure Address where
  version : Version
  value : Nat
  zone : Text
  small : value < 2^version.width
  zoneless : version = .v4 → zone = []
  plain : '%' ∉ zone ∧ '/' ∉ zone
  deriving DecidableEq

theorem zoneless_none (v : Version) : v = .v4 → ([] : Text) = [] := fun _ => rfl

theorem zoneless_v6 (zone : Text) : Version.v6 = .v4 → zone = [] := by simp

theorem plain_none : '%' ∉ ([] : Text) ∧ '/' ∉ ([] : Text) := by simp

def Address.text (a : Address) : Text :=
  match a.version with
  | .v4 => text4 a.value
  | .v6 => text6 (hextets 8 a.value)++if a.zone = [] then [] else '%'::a.zone

def address4 (s : Text) : Option Address :=
  match h : parse4 s with
  | some n => some ⟨.v4,n,[],parse4_lt h,zoneless_none .v4,plain_none⟩
  | none => none

theorem parse6_lt (h : parse6 s = some hs) :
    hextetsValue hs < 2^128 := by
  obtain ⟨hl,hs⟩ := parse6_shape h
  have hv := hextetsValue_lt hs
  rw [hl] at hv
  exact hv

def addressWithZone (s zone : Text) (h : '%' ∉ zone ∧ '/' ∉ zone) : Option Address :=
  match hp : parse6 s with
  | some hs => some ⟨.v6,hextetsValue hs,zone,parse6_lt hp,zoneless_v6 zone,h⟩
  | none => none

def address6 (s : Text) : Option Address :=
  match s.dropWhile (· ≠ '%') with
  | [] => addressWithZone (s.takeWhile (· ≠ '%')) [] plain_none
  | _::zone =>
    if h : zone ≠ [] ∧ '%' ∉ zone ∧ '/' ∉ zone then
      addressWithZone (s.takeWhile (· ≠ '%')) zone h.2
    else none

/-- `ipaddress.ip_address`. -/
def ipAddress (s : Text) : Option Address := address4 s <|> address6 s

theorem address4_text4 (h : n < 2^32) :
    address4 (text4 n) = some ⟨.v4,n,[],h,fun _ => rfl,by simp⟩ := by
  have hp := parse4_text4 h
  unfold address4
  split
  case h_1 m hm =>
    rw [hp] at hm
    cases hm
    rfl
  case h_2 hn =>
    rw [hp] at hn
    cases hn

theorem hextets_eight (h : n < 2^128) : hextetsValue (hextets 8 n) = n :=
  hextetsValue_hextets 8 n (by simpa using h)

theorem addressWithZone_text6 (h : n < 2^128) (zone : Text) (hz : '%' ∉ zone ∧ '/' ∉ zone) :
    addressWithZone (text6 (hextets 8 n)) zone hz = some ⟨.v6,n,zone,h,by simp,hz⟩ := by
  have hp := parse6_text6 (hextets_length 8 n) fun a => hextets_lt
  unfold addressWithZone
  split
  case h_1 hs hm =>
    rw [hp] at hm
    cases hm
    simp only [hextets_eight h]
  case h_2 hn =>
    rw [hp] at hn
    cases hn

theorem mem_intercalate {x : Char} {sep : Text} {ls : List Text} (h : x ∈ sep.intercalate ls) :
    x ∈ sep ∨ ∃ l ∈ ls, x ∈ l := by
  induction ls with
  | nil => simp at h
  | cons l ls ih =>
    cases ls with
    | nil => exact .inr ⟨l,by simp,by simpa using h⟩
    | cons m ms =>
      rw [intercalate_cons_cons] at h
      rcases mem_append.mp h with h | h
      · rcases mem_append.mp h with h | h
        · exact .inr ⟨l,by simp,h⟩
        · exact .inl h
      · rcases ih h with h | ⟨k,hk,hx⟩
        · exact .inl h
        · exact .inr ⟨k,mem_cons_of_mem _ hk,hx⟩

theorem text6_mem (h : c ∈ text6 hs) : c = ':' ∨ isHex c = true := by
  rcases mem_intercalate h with h | ⟨t,ht,hc⟩
  · exact .inl (by simpa using h)
  · exact .inr (groups_mem ht c hc)

theorem text4_mem (h : c ∈ text4 n) : c = '.' ∨ c.isDigit = true := by
  rcases mem_intercalate h with h | ⟨t,ht,hc⟩
  · exact .inl (by simpa using h)
  · obtain ⟨m,_,rfl⟩ := mem_map.mp ht
    exact .inr (Nat.isDigit_of_mem_toDigits (by decide) (by decide) hc)

theorem text6_colon (hl : hs.length = 8) : ':' ∈ text6 hs := by
  obtain ⟨h3,_⟩ := groups_length hl
  unfold text6
  match groups hs,h3 with
  | a::b::gs,_ =>
    rw [intercalate_cons_cons]
    simp

theorem mapM_some_reads {ts : List β}
    (h : ts.mapM read = some l) {t : β} (ht : t ∈ ts) : ∃ a, read t = some a := by
  induction ts generalizing l with
  | nil => cases ht
  | cons u ts ih =>
    rw [mapM_cons] at h
    simp only [bind_eq_bind,bind_eq_some_iff] at h
    obtain ⟨a,hu,as,hts,_⟩ := h
    rcases mem_cons.mp ht with rfl | ht
    · exact ⟨a,hu⟩
    · exact ih hts ht

theorem parseOctet_digit (h : parseOctet t = some n) (hc : c ∈ t) :
    c.isDigit = true := by
  unfold parseOctet at h
  split at h
  · cases h
  case isFalse hn =>
    simp only [not_or,Bool.not_eq_false] at hn
    exact all_eq_true.mp hn.2.1 c hc

theorem parse4_mem (h : parse4 s = some n) (hc : c ∈ s) :
    c = '.' ∨ c.isDigit = true := by
  unfold parse4 at h
  split at h
  case h_1 hs =>
    rw [←@List.intercalate_splitOn _ s _ _ '.'] at hc
    rcases mem_intercalate hc with hc | ⟨t,ht,hc⟩
    · exact .inl (by simpa using hc)
    · obtain ⟨_,hr⟩ := mapM_some_reads hs ht
      exact .inr (parseOctet_digit hr hc)
  · cases h

theorem address4_colon (h : ':' ∈ s) : address4 s = none := by
  unfold address4
  split
  case h_1 n hn =>
    rcases parse4_mem hn h with hc | hc
    · simp at hc
    · simp [Char.isDigit] at hc
  · rfl

theorem address6_text {a : Address} (h : a.version = .v6) : address6 a.text = some a := by
  obtain ⟨version,value,zone,small,zoneless,plain⟩ := a
  cases h
  have clean : ∀ c ∈ text6 (hextets 8 value), decide (c ≠ '%') = true := fun c hc => by
    rcases text6_mem hc with rfl | hc
    · rfl
    · simpa using isHex_ne hc (by decide)
  simp only [Address.text,address6]
  cases zone with
  | nil =>
    rw [if_pos rfl,append_nil,dropWhile_eq_nil_iff.mpr clean, takeWhile_eq_self_iff.mpr clean]
    exact addressWithZone_text6 small [] plain
  | cons z zs =>
    rw [if_neg (by simp),dropWhile_append_of_pos clean,takeWhile_append_of_pos clean]
    simp only [ne_eq,not_true_eq_false,decide_false,Bool.false_eq_true,not_false_eq_true,
      dropWhile_cons_of_neg,takeWhile_cons_of_neg,append_nil,reduceCtorEq,plain,
      and_true,dite_true]
    exact addressWithZone_text6 small (z::zs) plain

theorem address_text_slash (a : Address) : '/' ∉ a.text := by
  intro h
  unfold Address.text at h
  split at h
  · rcases text4_mem h with h | h
    · simp at h
    · simp [Char.isDigit] at h
  · rcases mem_append.mp h with h | h
    · rcases text6_mem h with h | h
      · simp at h
      · revert h
        decide
    · split at h
      · cases h
      · rcases mem_cons.mp h with h | h
        · simp at h
        · exact a.plain.2 h

/-! Networks. -/

structure Network where
  address : Address
  prefixLen : Nat
  short : prefixLen ≤ address.version.width
  aligned : address.value % 2^(address.version.width-prefixLen) = 0
  deriving DecidableEq

def Network.text (n : Network) : Text := n.address.text ++ '/'::Nat.toDigits 10 n.prefixLen

/-- The network of an address: host bits are refused or cleared, and with them the zone. -/
def network (strict : Bool) (a : Address) (p : Nat) (hp : p ≤ a.version.width) : Option Network :=
  let block := 2^(a.version.width-p)
  if h : a.value % block = 0 then some ⟨a,p,hp,h⟩
  else if strict then none
  else some ⟨⟨a.version,a.value/block*block,[],
      Nat.lt_of_le_of_lt (Nat.div_mul_le_self ..) a.small,fun _ => rfl,plain_none⟩,p,hp,
    Nat.mul_mod_left ..⟩

def parsePrefix (width : Nat) (t : Text) : Option {p // p ≤ width} :=
  if t = [] ∨ t.all Char.isDigit = false then none
  else if h : Nat.ofDigitChars 10 t 0 ≤ width then some ⟨_,h⟩ else none

/-- The prefix length a netmask stands for: ones first, zeros after them. -/
def maskPrefix (n : Nat) : Option {p // p ≤ 32} :=
  ((List.finRange 33).find? fun p => 2^32-2^(32-p.val) = n).map fun p => ⟨p.val,by omega⟩

/-- What may stand after the slash of an IPv4 network: a length, a netmask or a hostmask. -/
def netmask4 (t : Text) : Option {p // p ≤ 32} :=
  parsePrefix 32 t <|> (parse4 t).bind fun n => maskPrefix n <|> maskPrefix (2^32-1-n)

def netmask : (v : Version) → Text → Option {p // p ≤ v.width}
  | .v4,t => netmask4 t
  | .v6,t => parsePrefix 128 t

def networkOf (strict : Bool) (a : Address) : Option Text → Option Network
  | none => network strict a a.version.width (Nat.le_refl _)
  | some mask => (netmask a.version mask).bind fun p => network strict a p.val p.property

/-- `ipaddress.ip_network`. -/
def ipNetwork (strict : Bool) (s : Text) : Option Network :=
  let read (address : Text) (mask : Option Text) :=
    (address4 address).bind (networkOf strict · mask) <|>
      (address6 address).bind (networkOf strict · mask)
  match s.splitOn '/' with
  | [address] => read address none
  | [address,mask] => read address (some mask)
  | _ => none

theorem parsePrefix_digits {width p : Nat} (h : p ≤ width) :
    parsePrefix width (Nat.toDigits 10 p) = some ⟨p,h⟩ := by
  have hd : (Nat.toDigits 10 p).all Char.isDigit = true :=
    all_eq_true.mpr fun c hc => Nat.isDigit_of_mem_toDigits (by decide) (by decide) hc
  unfold parsePrefix
  rw [if_neg (by simp [hd])]
  simp only [Nat.ofDigitChars_ten_toDigits,h,dite_true]

theorem netmask_digits {v : Version} {p : Nat} (h : p ≤ v.width) :
    netmask v (Nat.toDigits 10 p) = some ⟨p,h⟩ := by
  cases v with
  | v4 =>
    change netmask4 _ = _
    rw [netmask4,@parsePrefix_digits 32 p h]
    rfl
  | v6 => exact @parsePrefix_digits 128 p h

/-- What is written is read back, whichever way host bits are treated. -/
theorem ipNetwork_text (strict : Bool) (n : Network) : ipNetwork strict n.text = some n := by
  have parts : n.text.splitOn '/' = [n.address.text,Nat.toDigits 10 n.prefixLen] := by
    rw [Network.text,splitOn_append_cons_self_of_not_mem (address_text_slash n.address),
      splitOn_eq_singleton (digits_not_mem (by decide) _)]
  have made : networkOf strict n.address (some (Nat.toDigits 10 n.prefixLen)) = some n := by
    simp only [networkOf,netmask_digits n.short,bind_some,network,n.aligned,dite_true]
  rw [ipNetwork]
  simp only [parts]
  cases hv : n.address.version with
  | v4 =>
    have read : address4 n.address.text = some n.address := by
      obtain ⟨⟨version,value,zone,small,zoneless,plain⟩,_,_,_⟩ := n
      cases hv
      cases zoneless rfl
      exact address4_text4 small
    rw [read,bind_some,made]
    rfl
  | v6 =>
    have colon : ':' ∈ n.address.text := by
      simp only [Address.text,hv]
      exact mem_append_left _ (text6_colon (hextets_length 8 _))
    rw [address4_colon colon,address6_text hv,bind_none,bind_some,made]
    rfl

end IpText
