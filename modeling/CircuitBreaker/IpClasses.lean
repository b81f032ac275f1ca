import CircuitBreaker.IpText

/-! What kind of address an address is, as Python's ipaddress says since it looks into IPv4-mapped
addresses. -/

namespace IpText

structure AddressBlock where
  version : Version
  base : Nat
  prefixLen : Nat

def Address.within (a : Address) (b : AddressBlock) : Bool :=
  a.version = b.version && a.value/2^(b.version.width-b.prefixLen) =
    b.base/2^(b.version.width-b.prefixLen)

def block4 (a b c d prefixLen : Nat) : AddressBlock := ⟨.v4,((a*256+b)*256+c)*256+d,prefixLen⟩

/-- A block by its leading hextets. -/
def block6 (hs : List Nat) (prefixLen : Nat) : AddressBlock :=
  ⟨.v6,hextetsValue (hs++List.replicate (8-hs.length) 0),prefixLen⟩

def mappedBlock : AddressBlock := block6 [0,0,0,0,0,0xffff] 96

/-- `ipv4_mapped` -/
def Address.ipv4Mapped (a : Address) : Option Address :=
  if a.within mappedBlock then
    some ⟨.v4,a.value%2^32,[],Nat.mod_lt _ (by decide),zoneless_none .v4,plain_none⟩
  else none

/-- The address itself, or the IPv4 address it stands for. -/
def Address.meant (a : Address) : Address := a.ipv4Mapped.getD a

def privateBlocks : List AddressBlock :=
  [block4 0 0 0 0 8,block4 10 0 0 0 8,block4 127 0 0 0 8,block4 169 254 0 0 16,block4 172 16 0 0 12,
    block4 192 0 0 0 24,block4 192 0 0 170 31,block4 192 0 2 0 24,block4 192 168 0 0 16,
    block4 198 18 0 0 15,block4 198 51 100 0 24,block4 203 0 113 0 24,block4 240 0 0 0 4,
    block4 255 255 255 255 32,
    block6 [0,0,0,0,0,0,0,1] 128,block6 [] 128,mappedBlock,block6 [0x64,0xff9b,1] 48,block6 [0x100] 64,
    block6 [0x2001] 23,block6 [0x2001,0xdb8] 32,block6 [0x2002] 16,block6 [0x3fff] 20,
    block6 [0xfc00] 7,block6 [0xfe80] 10]

def privateExceptions : List AddressBlock :=
  [block4 192 0 0 9 32,block4 192 0 0 10 32,
    block6 [0x2001,1,0,0,0,0,0,1] 128,block6 [0x2001,1,0,0,0,0,0,2] 128,block6 [0x2001,3] 32,
    block6 [0x2001,4,0x112] 48,block6 [0x2001,0x20] 28,block6 [0x2001,0x30] 28]

def Address.isUnspecified (a : Address) : Bool := a.meant.value = 0

def Address.isMulticast (a : Address) : Bool :=
  a.meant.within (block4 224 0 0 0 4) || a.meant.within (block6 [0xff00] 8)

def Address.isLinkLocal (a : Address) : Bool :=
  a.meant.within (block4 169 254 0 0 16) || a.meant.within (block6 [0xfe80] 10)

/-- The one that does not look into mapped addresses. -/
def Address.isLoopback (a : Address) : Bool :=
  a.within (block4 127 0 0 0 8) || a.within (block6 [0,0,0,0,0,0,0,1] 128)

def Address.isPrivate (a : Address) : Bool :=
  privateBlocks.any a.meant.within && !privateExceptions.any a.meant.within

def Address.isGlobal (a : Address) : Bool :=
  !a.meant.within (block4 100 64 0 0 10) && !a.isPrivate

variable {a b : Address}

theorem ipv4Mapped_version (h : a.ipv4Mapped = some b) :
    a.version = .v6 ∧ b.version = .v4 := by
  rw [Address.ipv4Mapped] at h
  split at h <;> cases h
  rename_i mapped
  rw [Address.within,Bool.and_eq_true,decide_eq_true_eq] at mapped
  exact ⟨mapped.1,rfl⟩

theorem meant_v4 (h : a.version = .v4) : a.meant = a := by
  cases hm : a.ipv4Mapped with
  | none => rw [Address.meant,hm,Option.getD_none]
  | some b =>
    rw [(ipv4Mapped_version hm).1] at h
    cases h

theorem meant_unmapped (h : a.ipv4Mapped = none) : a.meant = a := by
  rw [Address.meant,h,Option.getD_none]

theorem meant_mapped (h : a.ipv4Mapped = some b) : a.meant = b := by
  rw [Address.meant,h,Option.getD_some]

theorem meant_twice (a : Address) : a.meant.meant = a.meant := by
  cases h : a.ipv4Mapped with
  | none => rw [meant_unmapped h,meant_unmapped h]
  | some b => rw [meant_mapped h,meant_v4 (ipv4Mapped_version h).2]

/-- What a mapped address means is private if it is. -/
theorem isPrivate_mapped (h : a.ipv4Mapped = some b) : a.isPrivate = b.isPrivate := by
  rw [Address.isPrivate,Address.isPrivate,meant_mapped h,meant_v4 (ipv4Mapped_version h).2]

/-- A loopback address of IPv4 counts as private. -/
theorem isLoopback_private (v4 : a.version = .v4) (h : a.isLoopback = true) :
    a.isPrivate = true := by
  have inside : a.value/2^24 = 127 := by
    rw [Address.isLoopback,Bool.or_eq_true,Address.within,Address.within,Bool.and_eq_true,
      Bool.and_eq_true,decide_eq_true_eq,decide_eq_true_eq,decide_eq_true_eq,decide_eq_true_eq] at h
    rcases h with h | h
    · exact h.2.trans (by decide)
    · rw [v4] at h
      cases h.1
  have loopback : a.within (block4 127 0 0 0 8) = true := by
    rw [Address.within,Bool.and_eq_true,decide_eq_true_eq,decide_eq_true_eq]
    exact ⟨v4,inside.trans (by decide)⟩
  rw [Address.isPrivate,meant_v4 v4,Bool.and_eq_true,List.any_eq_true,Bool.not_eq_true']
  refine ⟨⟨_,by simp [privateBlocks],loopback⟩,List.any_eq_false.2 fun b hb there => ?_⟩
  rw [Address.within,Bool.and_eq_true,decide_eq_true_eq,decide_eq_true_eq] at there
  obtain ⟨version,same⟩ := there
  simp only [privateExceptions,List.mem_cons,List.not_mem_nil,or_false] at hb
  rcases hb with rfl | rfl | rfl | rfl | rfl | rfl | rfl | rfl
  · have value : a.value/1 = 3221225481/1 := same
    omega
  · have value : a.value/1 = 3221225482/1 := same
    omega
  all_goals exact absurd (v4.symm.trans version) (by decide)

theorem within_version {b : AddressBlock} (h : a.version ≠ b.version) :
    a.within b = false := by
  rw [Address.within,decide_eq_false h,Bool.false_and]

theorem mapped_value (h : a.ipv4Mapped = some b) : a.value/2^32 = 0xffff := by
  rw [Address.ipv4Mapped] at h
  split at h
  · rename_i mapped
    rw [Address.within,Bool.and_eq_true,decide_eq_true_eq,decide_eq_true_eq] at mapped
    exact mapped.2.trans (by decide)
  · cases h

/-- A mapped address is in no block of IPv6's own. -/
theorem mapped_not_local (h : a.ipv4Mapped = some b) :
    a.within (block6 [0xfc00] 7) = false := by
  have high := mapped_value h
  refine Bool.eq_false_iff.2 fun there => ?_
  rw [Address.within,Bool.and_eq_true,decide_eq_true_eq,decide_eq_true_eq] at there
  have top : a.value/2^121 = 126 := there.2.trans (by decide)
  omega

theorem mapped_not_loopback (h : a.ipv4Mapped = some b) : a.isLoopback = false := by
  have high := mapped_value h
  have v6 := (ipv4Mapped_version h).1
  have other : a.within (block6 [0,0,0,0,0,0,0,1] 128) = false := by
    refine Bool.eq_false_iff.2 fun there => ?_
    rw [Address.within,Bool.and_eq_true,decide_eq_true_eq,decide_eq_true_eq] at there
    have one : a.value/1 = 1 := there.2.trans (by decide)
    omega
  rw [Address.isLoopback,other,within_version (by rw [v6]; decide)]
  rfl

end IpText
