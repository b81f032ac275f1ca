import CircuitBreaker.BinaryBlocks
import CircuitBreaker.IpText

/-! IP addresses and prefixes as Go's `net/netip` has them. A prefix has no zone and need not be
masked, an IPv4-mapped address is an IPv6 address until it is unmapped, and no prefix contains an
address with a zone. -/

namespace GoNetip
open BinaryBlocks IpText List

/-- An address, with the zone of an IPv6 one; the empty zone is no zone. -/
structure Addr where
  version : Version
  value : Nat
  zone : Text
  small : value < 2^version.width
  zoneless : version = .v4 → zone = []

instance : DecidableEq Addr := fun a b =>
  decidable_of_iff (a.version = b.version ∧ a.value = b.value ∧ a.zone = b.zone)
    (by cases a; cases b; simp)

structure Prefix where
  version : Version
  value : Nat
  bits : Nat
  small : value < 2^version.width
  short : bits ≤ version.width

instance : DecidableEq Prefix := fun p q =>
  decidable_of_iff (p.version = q.version ∧ p.value = q.value ∧ p.bits = q.bits)
    (by cases p; cases q; simp)

def mapped (v : Version) (value : Nat) : Bool := v = .v6 && value/2^32 = 0xffff

def Addr.unmap (a : Addr) : Addr :=
  if mapped a.version a.value then ⟨.v4,a.value%2^32,[],Nat.mod_lt _ (by decide),zoneless_none .v4⟩ else a

/-! Reading. -/

def parseIPv4 (s : Text) : Option Addr :=
  match h : parse4 s with
  | some n => some ⟨.v4,n,[],parse4_lt h,zoneless_none .v4⟩
  | none => none

def parseIPv6 (s zone : Text) : Option Addr :=
  match h : parse6 s with
  | some hs => some ⟨.v6,hextetsValue hs,zone,parse6_lt h,zoneless_v6 zone⟩
  | none => none

def parseAddr (s : Text) : Option Addr :=
  parseIPv4 s <|>
    match s.dropWhile (· ≠ '%') with
    | [] => parseIPv6 s []
    | [_] => none
    | _::zone => parseIPv6 (s.takeWhile (· ≠ '%')) zone

/-- The text before the last slash and the one after it. -/
def lastSlash (s : Text) : Option (Text × Text) :=
  match s.reverse.dropWhile (· ≠ '/') with
  | [] => none
  | _::before => some (before.reverse,(s.reverse.takeWhile (· ≠ '/')).reverse)

/-- A prefix length has no sign and no leading zeros. -/
def parseBits (width : Nat) (t : Text) : Option {b // b ≤ width} :=
  if t = [] ∨ t.all Char.isDigit = false ∨ (1 < t.length ∧ t.head? = some '0') then none
  else if h : Nat.ofDigitChars 10 t 0 ≤ width then some ⟨_,h⟩ else none

def parsePrefix (s : Text) : Option Prefix := do
  let (address,length) ← lastSlash s
  let a ← parseAddr address
  if a.zone ≠ [] then none
  else (parseBits a.version.width length).map fun b => ⟨a.version,a.value,b.val,a.small,b.property⟩

/-- `PrefixFrom` of an address and its own length. -/
def Addr.full (a : Addr) : Prefix := ⟨a.version,a.value,a.version.width,a.small,Nat.le_refl _⟩

/-! Writing. -/

def mappedText (n : Nat) : Text := [':',':','f','f','f','f',':']++text4 n

def valueText (v : Version) (n : Nat) : Text :=
  match v with
  | .v4 => text4 n
  | .v6 => if mapped .v6 n then mappedText (n%2^32) else text6 (hextets 8 n)

def Addr.text (a : Addr) : Text :=
  valueText a.version a.value++if a.zone = [] then [] else '%'::a.zone

def Prefix.text (p : Prefix) : Text := valueText p.version p.value ++ '/'::Nat.toDigits 10 p.bits

/-! Membership. -/

/-- The number of addresses of a prefix. -/
def Prefix.block (p : Prefix) : Nat := 2^(p.version.width-p.bits)

def Prefix.masked (p : Prefix) : Prefix :=
  {p with
    value := p.value/p.block*p.block
    small := Nat.lt_of_le_of_lt (Nat.div_mul_le_self ..) p.small}

/-- The addresses of a prefix, whatever their zone. -/
def Prefix.Covers (p : Prefix) (a : Addr) : Prop :=
  a.version = p.version ∧ a.value/p.block = p.value/p.block

instance (p : Prefix) (a : Addr) : Decidable (p.Covers a) := inferInstanceAs (Decidable (_ ∧ _))

def Prefix.contains (p : Prefix) (a : Addr) : Bool := a.zone = [] && p.Covers a

def Prefix.overlaps (p q : Prefix) : Bool :=
  let block := 2^(p.version.width-min p.bits q.bits)
  p.version = q.version && p.value/block = q.value/block

variable {p : Prefix} {a : Addr} {n : Nat} {c : Char} {v : Version}

theorem contains_iff : p.contains a = true ↔ a.zone = [] ∧ p.Covers a := by
  simp [Prefix.contains]

theorem block_pos (p : Prefix) : 0 < p.block := Nat.two_pow_pos _

theorem covers_masked : p.masked.Covers a ↔ p.Covers a := by
  change _ ∧ a.value/p.block = p.value/p.block*p.block/p.block ↔ _
  rw [Nat.mul_div_cancel _ (block_pos p)]
  exact Iff.rfl

/-- Prefixes with an address in common overlap. -/
theorem overlaps_of_covers {q : Prefix} (hp : p.Covers a) (hq : q.Covers a) :
    p.overlaps q = true := by
  have same : p.version = q.version := hp.1.symm.trans hq.1
  have left : a.value/2^(p.version.width-min p.bits q.bits) =
      p.value/2^(p.version.width-min p.bits q.bits) := div_block hp.2 (by omega)
  have right : a.value/2^(p.version.width-min p.bits q.bits) =
      q.value/2^(p.version.width-min p.bits q.bits) :=
    div_block hq.2 (by rw [same]; omega)
  simp only [Prefix.overlaps,Bool.and_eq_true,decide_eq_true_eq]
  exact ⟨same,left.symm.trans right⟩

/-- The first address of a masked prefix. -/
def Prefix.addr (p : Prefix) : Addr := ⟨p.version,p.value,[],p.small,fun _ => rfl⟩

/-- A prefix that covers the first address of a longer one covers all of it. -/
theorem Prefix.Covers.within {q : Prefix} (h : p.Covers q.masked.addr)
    (hle : p.bits ≤ q.bits) (hq : q.Covers a) : p.Covers a := by
  have same : q.version = p.version := h.1
  have first : q.masked.value/p.block = p.value/p.block := h.2
  have inside : a.value/q.block = q.masked.value/q.block := by
    change _ = q.value/q.block*q.block/q.block
    rw [Nat.mul_div_cancel _ (block_pos q)]
    exact hq.2
  have wider : a.value/p.block = q.masked.value/p.block :=
    div_block inside (by rw [same]; omega)
  exact ⟨hq.1.trans same,wider.trans first⟩

theorem masked_masked (p : Prefix) : p.masked.masked = p.masked := by
  have value : p.value/p.block*p.block/p.block*p.block = p.value/p.block*p.block := by
    rw [Nat.mul_div_cancel _ (block_pos p)]
  unfold Prefix.masked
  congr 1

theorem full_masked (a : Addr) : a.full.masked = a.full := by
  have one : a.full.block = 1 := by simp [Prefix.block,Addr.full]
  have value : a.full.value/a.full.block*a.full.block = a.full.value := by
    rw [one,Nat.div_one,Nat.mul_one]
  unfold Prefix.masked
  congr 1

/-- The addresses of a prefix as a block of numbers. -/
def Prefix.range (p : Prefix) : Block Version :=
  ⟨p.version,p.value/p.block*p.block,p.version.width-p.bits,Nat.dvd_mul_left ..⟩

theorem mem_range {x : Version × Nat} :
    x ∈ p.range.members ↔ x.1 = p.version ∧ x.2/p.block = p.value/p.block := by
  rw [mem_members_div]
  change _ ∧ _ = p.value/p.block*p.block/p.block ↔ _
  rw [Nat.mul_div_cancel _ (block_pos p)]
  exact Iff.rfl

/-- What is unmapped is an IPv4 address or an IPv6 address that is not mapped. -/
theorem unmap_unmapped (a : Addr) : mapped a.unmap.version a.unmap.value = false := by
  unfold Addr.unmap
  split
  · rfl
  case isFalse h => exact Bool.eq_false_iff.mpr h

/-! What is written is read back. -/

theorem mappedText_parts (n : Nat) :
    (mappedText n).splitOn ':' = [[],[],['f','f','f','f'],text4 n] := by
  have clean : ':' ∉ text4 n := fun h => by
    rcases text4_mem h with h | h
    · simp at h
    · simp [Char.isDigit] at h
  have parts : mappedText n = [':'].intercalate [[],[],['f','f','f','f'],text4 n] := by
    simp [mappedText,List.intercalate]
  rw [parts]
  refine splitOn_intercalate ':' (fun t ht => ?_) (by simp)
  simp only [mem_cons,not_mem_nil,or_false] at ht
  rcases ht with rfl | rfl | rfl | rfl
  · simp
  · simp
  · decide
  · exact clean

theorem parse6_mapped (h : n < 2^32) :
    parse6 (mappedText n) = some (List.replicate 5 0++[0xffff,n/65536,n%65536]) := by
  have dot : '.' ∈ text4 n := by
    simp [text4,List.intercalate]
  have spelled : spellQuad [[],[],['f','f','f','f'],text4 n] =
      some [[],[],['f','f','f','f'],hexText (n/65536),hexText (n%65536)] := by
    unfold spellQuad
    have last : [[],[],['f','f','f','f'],text4 n].getLastD [] = text4 n := rfl
    rw [last,if_pos dot,parse4_text4 h]
    rfl
  have low : [['f','f','f','f'],hexText (n/65536),hexText (n%65536)].mapM parseHextet =
      some [0xffff,n/65536,n%65536] :=
    @mapM_hexText [0xffff,n/65536,n%65536] fun a ha => by
      simp only [mem_cons,not_mem_nil,or_false] at ha
      omega
  have ne : ∀ t ∈ [['f','f','f','f'],hexText (n/65536),hexText (n%65536)], t ≠ [] := fun t =>
    @hexText_ne_nil [0xffff,n/65536,n%65536] t
  have read := @readGroups_skip [] _ (by simp) ne (by simp) [] _ rfl low
  rw [parse6,mappedText_parts,if_neg (by simp),spelled]
  exact read

theorem parse6_value (h : n < 2^128) :
    ∃ hs, parse6 (valueText .v6 n) = some hs ∧ hextetsValue hs = n := by
  simp only [valueText]
  split
  case isTrue hm =>
    refine ⟨_,parse6_mapped (Nat.mod_lt _ (by decide)),?_⟩
    simp only [mapped,decide_true,Bool.true_and,decide_eq_true_eq] at hm
    simp only [hextetsValue,List.replicate,cons_append,nil_append,List.foldl]
    omega
  case isFalse =>
    exact ⟨_,parse6_text6 (hextets_length 8 n) (fun a => hextets_lt),hextets_eight h⟩

/-- What an address without a zone is written with. -/
def isAddressChar (c : Char) : Bool := c = ':' || c = '.' || isHex c

theorem digit_isAddressChar (h : c.isDigit = true) : isAddressChar c = true := by
  simp [isAddressChar,isHex,h]

theorem text4_char (h : c ∈ text4 n) : isAddressChar c = true := by
  rcases text4_mem h with rfl | h
  · rfl
  · exact digit_isAddressChar h

theorem valueText_char (h : c ∈ valueText v n) :
    isAddressChar c = true := by
  cases v with
  | v4 => exact text4_char h
  | v6 =>
    simp only [valueText] at h
    split at h
    · rcases mem_append.mp h with h | h
      · have all : [':',':','f','f','f','f',':'].all isAddressChar = true := by decide
        exact all_eq_true.mp all c h
      · exact text4_char h
    · rcases text6_mem h with rfl | h
      · rfl
      · simp [isAddressChar,h]

theorem valueText_colon (n : Nat) : ':' ∈ valueText .v6 n := by
  simp only [valueText]
  split
  · exact .head _
  · exact text6_colon (hextets_length 8 n)

theorem parseIPv4_text (h : n < 2^32) :
    parseIPv4 (text4 n) = some ⟨.v4,n,[],h,fun _ => rfl⟩ := by
  have read := parse4_text4 h
  unfold parseIPv4
  split
  case h_1 m hm =>
    cases hm.symm.trans read
    rfl
  case h_2 none => cases none.symm.trans read

theorem parseIPv4_colon {s : Text} (h : ':' ∈ s) : parseIPv4 s = none := by
  unfold parseIPv4
  split
  case h_1 n hn =>
    rcases parse4_mem hn h with hc | hc
    · simp at hc
    · simp [Char.isDigit] at hc
  · rfl

theorem parseIPv6_text (h : n < 2^128) :
    parseIPv6 (valueText .v6 n) [] = some ⟨.v6,n,[],h,nofun⟩ := by
  obtain ⟨hs,read,value⟩ := parse6_value h
  unfold parseIPv6
  split
  case h_1 hs' hm =>
    cases hm.symm.trans read
    simp only [value]
  case h_2 none => cases none.symm.trans read

theorem parseAddr_text (h : n < 2^v.width) :
    parseAddr (valueText v n) = some ⟨v,n,[],h,fun _ => rfl⟩ := by
  cases v with
  | v4 =>
    rw [parseAddr,valueText,parseIPv4_text h]
    rfl
  | v6 =>
    have clean : ∀ c ∈ valueText .v6 n, decide (c ≠ '%') = true := fun c hc => by
      refine decide_eq_true fun eq => ?_
      rw [eq] at hc
      exact absurd (valueText_char hc) (by decide)
    rw [parseAddr,parseIPv4_colon (valueText_colon n),dropWhile_eq_nil_iff.mpr clean]
    exact parseIPv6_text h

theorem lastSlash_append {a b : Text} (h : '/' ∉ b) : lastSlash (a ++ '/'::b) = some (a,b) := by
  have clean : ∀ c ∈ b.reverse, decide (c ≠ '/') = true := fun c hc =>
    decide_eq_true fun eq => h (eq ▸ mem_reverse.mp hc)
  have split_ : (a ++ '/'::b).reverse = b.reverse ++ '/'::a.reverse := by simp
  rw [lastSlash,split_,dropWhile_append_of_pos clean,takeWhile_append_of_pos clean]
  simp

theorem parseBits_digits {b : Nat} (h : b ≤ v.width) :
    parseBits v.width (Nat.toDigits 10 b) = some ⟨b,h⟩ := by
  have digits : (Nat.toDigits 10 b).all Char.isDigit = true :=
    all_eq_true.mpr fun c hc => Nat.isDigit_of_mem_toDigits (by decide) (by decide) hc
  have zero : ¬(1 < (Nat.toDigits 10 b).length ∧ (Nat.toDigits 10 b).head? = some '0') := by
    have all : ∀ b : Fin 129,
        ¬(1 < (Nat.toDigits 10 b).length ∧ (Nat.toDigits 10 b).head? = some '0') := by decide
    have most : v.width ≤ 128 := by cases v <;> decide
    exact all ⟨b,by omega⟩
  unfold parseBits
  rw [if_neg (by simp [digits,zero])]
  simp only [Nat.ofDigitChars_ten_toDigits,h,dite_true]

/-- A prefix is read as it was written. -/
theorem parsePrefix_text (p : Prefix) : parsePrefix p.text = some p := by
  have slash : lastSlash (valueText p.version p.value ++ '/'::Nat.toDigits 10 p.bits) =
      some (valueText p.version p.value,Nat.toDigits 10 p.bits) :=
    lastSlash_append (digits_not_mem (by decide) p.bits)
  rw [parsePrefix,Prefix.text,slash]
  simp [parseAddr_text p.small,parseBits_digits p.short]

end GoNetip
