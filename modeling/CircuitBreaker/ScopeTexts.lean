import CircuitBreaker.AgentScope
import CircuitBreaker.NetworkAdmission
import Mathlib.Data.Option.Basic

/-! Texts that the agent reads as a prefix and that carry no zone: the backend reads the same
prefix. -/

namespace CircuitBreaker.ScopeTexts
open IpText GoNetip List Option

variable {t : Text}

theorem parseHextet_hex {n : Nat} (h : parseHextet t = some n) : ∀ c ∈ t, isHex c = true := by
  unfold parseHextet at h
  split at h
  · cases h
  · rename_i hn
    simp only [not_or,Bool.not_eq_false] at hn
    exact fun c hc => all_eq_true.mp hn.2.1 c hc

theorem mapM_hex {ts : List Text} {l : List Nat} (h : ts.mapM parseHextet = some l)
    (ht : t ∈ ts) : ∀ c ∈ t, isHex c = true := by
  obtain ⟨n,hn⟩ := mapM_some_reads h ht
  exact parseHextet_hex hn

theorem side_mem {outer : Text} {inner groups kept : List Text} (h : side outer inner groups = some kept) (ht : t = outer ∨ t ∈ inner) (hg : ∀ u, u = outer ∨ u ∈ inner → u ∈ groups) :
    t = [] ∨ t ∈ kept := by
  unfold side at h
  split at h
  · rename_i empty
    split at h
    · rename_i none
      subst none
      rcases ht with rfl | ht
      · exact .inl empty
      · cases ht
    · cases h
  · cases h
    exact .inr (hg t ht)

theorem readGroups_hex {parts : List Text} {hs : List Nat} (h : readGroups parts = some hs) :
    ∀ t ∈ parts, ∀ c ∈ t, isHex c = true := by
  cases parts with
  | nil => cases h
  | cons first rest =>
    simp only [readGroups] at h
    split at h
    · split at h
      · exact fun t ht => mapM_hex h ht
      · cases h
    · rename_i skip after hafter
      split at h
      · cases h
      · simp only [bind_eq_bind,bind_eq_some_iff] at h
        obtain ⟨hi,hhi,lo,hlo,h⟩ := h
        split at h
        · simp only [bind_eq_some_iff] at h
          obtain ⟨high,hh,low,hl,-⟩ := h
          have hne : rest ≠ [] := by
            rintro rfl
            cases hafter
          have hskip : skip = [] := by
            have := head?_dropWhile_not (fun t : Text => decide (t ≠ [])) rest.dropLast
            rw [hafter] at this
            simpa using this
          have parts : rest = rest.dropLast.takeWhile (· ≠ []) ++ skip :: after ++ [rest.getLastD []] := by
            rw [←hafter,takeWhile_append_dropWhile]
            have := (dropLast_append_getLast hne).symm
            rw [getLastD_eq_getLast?,getLast?_eq_some_getLast hne]
            exact this
          intro t ht
          have empty : t = [] → ∀ c ∈ t, isHex c = true := by
            rintro rfl c hc
            cases hc
          have high_ : ∀ u, u = first ∨ u ∈ rest.dropLast.takeWhile (· ≠ []) →
              u = [] ∨ u ∈ hi := fun u hu => side_mem hhi hu (fun w hw => mem_cons.mpr hw)
          have low_ : ∀ u, u = rest.getLastD [] ∨ u ∈ after → u = [] ∨ u ∈ lo := fun u hu =>
            side_mem hlo hu (fun w hw => by
              rw [mem_append,mem_singleton]
              exact hw.symm)
          have found : t = [] ∨ t ∈ hi ∨ t ∈ lo := by
            rw [parts] at ht
            simp only [mem_cons,mem_append,not_mem_nil,or_false] at ht
            rcases ht with ht | (ht | ht | ht) | ht
            · exact (high_ t (.inl ht)).imp_right .inl
            · exact (high_ t (.inr ht)).imp_right .inl
            · exact .inl (ht.trans hskip)
            · exact (low_ t (.inr ht)).imp_right .inr
            · exact (low_ t (.inl ht)).imp_right .inr
          rcases found with ht | ht | ht
          · exact empty ht
          · exact mapM_hex hh ht
          · exact mapM_hex hl ht
        · cases h

variable {s : Text}

theorem parse6_char {hs : List Nat} (h : parse6 s = some hs) {c : Char} (hc : c ∈ s) :
    isAddressChar c = true := by
  unfold parse6 at h
  simp only at h
  split at h
  · cases h
  · rename_i many
    simp only [bind_eq_bind,bind_eq_some_iff] at h
    obtain ⟨parts,spelled,h⟩ := h
    split at h
    · cases h
    · have hex := readGroups_hex h
      rw [←@List.intercalate_splitOn _ s _ _ ':'] at hc
      rcases mem_intercalate hc with hc | ⟨t,ht,hc⟩
      · rw [mem_singleton.mp hc]
        rfl
      · have ishex : isHex c = true → isAddressChar c = true := fun hx => by simp [isAddressChar,hx]
        unfold spellQuad at spelled
        split at spelled
        · obtain ⟨n,quad,rfl⟩ := Option.map_eq_some_iff.mp spelled
          have hne : s.splitOn ':' ≠ [] := splitOn_ne_nil ':' s
          rw [←dropLast_append_getLast hne,mem_append,mem_singleton] at ht
          rcases ht with ht | ht
          · exact ishex (hex t (mem_append_left _ ht) c hc)
          · have last : (s.splitOn ':').getLastD [] = t := by
              rw [ht,getLastD_eq_getLast?,getLast?_eq_some_getLast hne]
              rfl
            rw [last] at quad
            rcases parse4_mem quad hc with rfl | hd
            · rfl
            · exact digit_isAddressChar hd
        · cases spelled
          exact ishex (hex t ht c hc)

theorem parseAddr_unzoned {a : Addr} (h : parseAddr s = some a) (unzoned : '%' ∉ s) :
    a.zone = [] ∧ ((a.version = .v4 ∧ parse4 s = some a.value) ∨
      parse4 s = none ∧ a.version = .v6 ∧ ∃ hs, parse6 s = some hs ∧ a.value = hextetsValue hs) := by
  have whole : s.dropWhile (· ≠ '%') = [] := dropWhile_eq_nil_iff.mpr fun c hc => by
    simp only [decide_eq_true_eq]
    rintro rfl
    exact unzoned hc
  rw [parseAddr,whole] at h
  rcases (orElse_eq_some _ _ _).mp h with h | ⟨none4,h⟩
  · unfold parseIPv4 at h
    split at h <;> cases h
    rename_i m hm
    exact ⟨rfl,.inl ⟨rfl,hm⟩⟩
  · have octets : parse4 s = none := by
      unfold parseIPv4 at none4
      split at none4
      · cases none4
      · rename_i hn
        exact hn
    change parseIPv6 s [] = some a at h
    unfold parseIPv6 at h
    split at h <;> cases h
    rename_i hs hp
    exact ⟨rfl,.inr ⟨octets,rfl,hs,hp,rfl⟩⟩

theorem parseAddr_char {a : Addr} (h : parseAddr s = some a) (unzoned : '%' ∉ s) :
    ∀ c ∈ s, isAddressChar c = true := by
  intro c hc
  rcases (parseAddr_unzoned h unzoned).2 with ⟨-,octets⟩ | ⟨-,-,hs,read,-⟩
  · rcases parse4_mem octets hc with rfl | hd
    · rfl
    · exact digit_isAddressChar hd
  · exact parse6_char read hc

theorem address4_of_parse4 {n : Nat} (h : parse4 s = some n) :
    ∃ b : Address, address4 s = some b ∧ b.version = .v4 ∧ b.value = n ∧ b.zone = [] := by
  unfold address4
  split
  · rename_i k hk
    cases hk.symm.trans h
    exact ⟨_,rfl,rfl,rfl,rfl⟩
  · rename_i none
    cases none.symm.trans h

theorem address4_none (h : parse4 s = none) : address4 s = none := by
  unfold address4
  split
  · rename_i k hk
    cases hk.symm.trans h
  · rfl

theorem address6_of_parse6 {hs : List Nat} (h : parse6 s = some hs) (unzoned : '%' ∉ s) :
    ∃ b : Address, address6 s = some b ∧ b.version = .v6 ∧ b.value = hextetsValue hs ∧ b.zone = [] := by
  have clean : ∀ c ∈ s, decide (c ≠ '%') = true := fun c hc => by
    simp only [decide_eq_true_eq]
    rintro rfl
    exact unzoned hc
  unfold address6
  rw [dropWhile_eq_nil_iff.mpr clean]
  simp only [takeWhile_eq_self_iff.mpr clean]
  unfold addressWithZone
  split
  · rename_i k hk
    cases hk.symm.trans h
    exact ⟨_,rfl,rfl,rfl,rfl⟩
  · rename_i none
    cases none.symm.trans h

structure Same (p : Prefix) (n : Network) : Prop where
  version : n.address.version = p.version
  value : n.address.value = p.value
  bits : n.prefixLen = p.bits
  zoneless : n.address.zone = []

theorem network_same {b : Address} (zoneless : b.zone = []) {q : Prefix} (version : b.version = q.version)
    (value : b.value = q.value) (hp : q.bits ≤ b.version.width) :
    ∃ n, network false b q.bits hp = some n ∧ Same q.masked n := by
  have block : 2^(b.version.width-q.bits) = q.block := by rw [version]; rfl
  unfold network
  simp only
  split
  · rename_i aligned
    refine ⟨_,rfl,version,?_,rfl,zoneless⟩
    change b.value = q.value/q.block*q.block
    rw [←value,←block,Nat.div_mul_cancel (Nat.dvd_of_mod_eq_zero aligned)]
  · refine ⟨_,rfl,version,?_,rfl,rfl⟩
    change b.value/2^(b.version.width-q.bits)*2^(b.version.width-q.bits) = q.value/q.block*q.block
    rw [block,value]

theorem read_same {s : Text} {a : Addr} (h : parseAddr s = some a) (unzoned : '%' ∉ s)
    {mask : Option Text} {q : Prefix} (version : q.version = a.version) (value : q.value = a.value)
    (len : ∀ b : Address, b.version = a.version → networkOf false b mask =
      if hp : q.bits ≤ b.version.width then network false b q.bits hp else none) :
    ∃ n, ((address4 s).bind (networkOf false · mask) <|>
      (address6 s).bind (networkOf false · mask)) = some n ∧ Same q.masked n := by
  have made : ∀ b : Address, b.version = a.version → b.value = a.value → b.zone = [] →
      ∃ n, networkOf false b mask = some n ∧ Same q.masked n := fun b hv hn hz => by
    have hp : q.bits ≤ b.version.width := by
      rw [hv,←version]
      exact q.short
    rw [len b hv,dif_pos hp]
    exact network_same hz (hv.trans version.symm) (hn.trans value.symm) hp
  rcases (parseAddr_unzoned h unzoned).2 with ⟨hv,octets⟩ | ⟨octets,hv,hs,read,hn⟩
  · obtain ⟨b,hb,bv,bn,bz⟩ := address4_of_parse4 octets
    obtain ⟨n,hn,same⟩ := made b (bv.trans hv.symm) bn bz
    refine ⟨n,?_,same⟩
    rw [hb,bind_some,hn]
    rfl
  · obtain ⟨b,hb,bv,bn,bz⟩ := address6_of_parse6 read unzoned
    obtain ⟨n,hn',same⟩ := made b (bv.trans hv.symm) (bn.trans hn.symm) bz
    refine ⟨n,?_,same⟩
    rw [address4_none octets,hb,bind_none,bind_some,hn']
    rfl

/-! White space. -/

theorem isSpace_python {c : Char} (h : NetScope.isSpace c = true) : AgentScope.isSpace c = true := by
  simp only [NetScope.isSpace,AgentScope.isSpace,Bool.or_eq_true,Bool.and_eq_true,decide_eq_true_eq,
    beq_iff_eq] at h ⊢
  omega

theorem cidr_not_space {c : Char} (h : isAddressChar c = true ∨ c = '/') :
    AgentScope.isSpace c = false := by
  rcases h with h | rfl
  · simp only [isAddressChar,isHex,Char.isDigit,Bool.or_eq_true,Bool.and_eq_true,
      decide_eq_true_eq] at h
    have range : 46 ≤ c.toNat ∧ c.toNat ≤ 102 := by
      obtain (rfl | rfl) | (⟨hl,hu⟩ | h) | h := h
      · decide
      · decide
      · exact ⟨le_trans (by decide) (UInt32.le_iff_toNat_le.mp hl),
          le_trans (UInt32.le_iff_toNat_le.mp hu) (by decide)⟩
      · omega
      · omega
    simp only [AgentScope.isSpace,Bool.or_eq_false_iff,Bool.and_eq_false_iff,decide_eq_false_iff_not,
      beq_eq_false_iff_ne,ne_eq]
    omega
  · decide

theorem dropWhile_clean {space : Char → Bool} {u ys : Text} (hu : ∀ c ∈ u, space c = false)
    (hy : ∀ c ∈ ys, space c = true) : (u++ys).dropWhile space = if u = [] then [] else u++ys := by
  cases u with
  | nil =>
    rw [nil_append,if_pos rfl]
    exact dropWhile_eq_nil_iff.mpr hy
  | cons c cs =>
    rw [if_neg (by simp),cons_append]
    exact dropWhile_cons_of_neg (by simp [hu c (by simp)])

theorem strip_around {xs u ys : Text} (hx : ∀ c ∈ xs, AgentScope.isSpace c = true)
    (hu : ∀ c ∈ u, AgentScope.isSpace c = false) (hy : ∀ c ∈ ys, AgentScope.isSpace c = true) :
    AgentScope.strip (xs++(u++ys)) = u := by
  rw [AgentScope.strip,dropWhile_append_of_pos hx,dropWhile_clean hu hy]
  split
  · rename_i empty
    simp [empty]
  · have back := @dropWhile_clean AgentScope.isSpace u.reverse [] (fun c hc => hu c (mem_reverse.mp hc))
      (by simp)
    rw [append_nil] at back
    rw [reverse_append,dropWhile_append_of_pos fun c hc => hy c (mem_reverse.mp hc),back]
    split
    · rename_i none
      rw [reverse_eq_nil_iff.mp none]
      rfl
    · exact reverse_reverse u

theorem trimSpace_around (t : Text) : ∃ xs ys, t = xs++(NetScope.trimSpace t++ys) ∧
    (∀ c ∈ xs, NetScope.isSpace c = true) ∧ ∀ c ∈ ys, NetScope.isSpace c = true := by
  refine ⟨t.takeWhile NetScope.isSpace,
    ((t.dropWhile NetScope.isSpace).reverse.takeWhile NetScope.isSpace).reverse,?_,
    fun c hc => mem_takeWhile_imp hc,
    fun c hc => mem_takeWhile_imp (mem_reverse.mp hc)⟩
  rw [NetScope.trimSpace,←reverse_append,takeWhile_append_dropWhile,reverse_reverse,
    takeWhile_append_dropWhile]

theorem strip_eq_trimSpace (h : ∀ c ∈ NetScope.trimSpace t, AgentScope.isSpace c = false) :
    AgentScope.strip t = NetScope.trimSpace t := by
  obtain ⟨xs,ys,split,hx,hy⟩ := trimSpace_around t
  have := strip_around (fun c hc => isSpace_python (hx c hc)) h (fun c hc => isSpace_python (hy c hc))
  rwa [←split] at this

theorem trimSpace_mem {c : Char} (h : c ∈ NetScope.trimSpace t) : c ∈ t := by
  obtain ⟨xs,ys,split,-⟩ := trimSpace_around t
  rw [split]
  simp [h]

/-! Prefixes. -/

theorem lastSlash_split {a b : Text} (h : lastSlash s = some (a,b)) : s = a ++ '/' :: b ∧ '/' ∉ b := by
  unfold lastSlash at h
  have parts := takeWhile_append_dropWhile (p := fun c : Char => decide (c ≠ '/')) (l := s.reverse)
  have clean : ∀ c ∈ s.reverse.takeWhile (fun c => decide (c ≠ '/')), c ≠ '/' := fun c hc => by
    simpa using mem_takeWhile_imp hc
  have first := head?_dropWhile_not (fun c : Char => decide (c ≠ '/')) s.reverse
  split at h <;> cases h
  rename_i slash before hd
  rw [hd] at first
  have slash_ : slash = '/' := by simpa using first
  rw [hd,slash_] at parts
  refine ⟨?_,fun hb => clean '/' (mem_reverse.mp hb) rfl⟩
  have back := congrArg List.reverse parts
  rw [reverse_append,reverse_reverse,reverse_cons,append_assoc] at back
  exact back.symm

theorem parseBits_netmask {v : Version} {b : {b // b ≤ v.width}}
    (h : parseBits v.width t = some b) : netmask v t = some b := by
  have read : IpText.parsePrefix v.width t = some b := by
    unfold parseBits at h
    unfold IpText.parsePrefix
    split at h
    · cases h
    · rename_i hn
      simp only [not_or] at hn
      rw [if_neg (by simp [hn.1,hn.2.1])]
      exact h
  cases v with
  | v4 =>
    change netmask4 t = _
    rw [netmask4,show IpText.parsePrefix 32 t = some b from read]
    rfl
  | v6 => exact read

theorem networkOf_length {v : Version} {length : Text} {b : {b // b ≤ v.width}}
    (hb : parseBits v.width length = some b) {c : Address} (hv : c.version = v) :
    networkOf false c (some length) =
      if hp : b.val ≤ c.version.width then network false c b.val hp else none := by
  subst hv
  rw [networkOf,parseBits_netmask hb,bind_some,dif_pos b.property]

theorem networkOf_bare {v : Version} {c : Address} (hv : c.version = v) : networkOf false c none =
    if hp : v.width ≤ c.version.width then network false c v.width hp else none := by
  subst hv
  rw [networkOf,dif_pos le_rfl]

theorem strip_clean (h : ∀ c ∈ NetScope.trimSpace t, isAddressChar c = true ∨ c = '/') :
    AgentScope.strip t = NetScope.trimSpace t :=
  strip_eq_trimSpace fun c hc => cidr_not_space (h c hc)

theorem parseCidr_same {p : Prefix} (h : NetScope.parseCidr t = some p) (unzoned : '%' ∉ t) :
    ∃ n, ipNetwork false (AgentScope.strip t) = some n ∧ Same p n := by
  have clean : '%' ∉ NetScope.trimSpace t := fun hc => unzoned (trimSpace_mem hc)
  unfold NetScope.parseCidr at h
  split at h
  · rename_i q hq
    cases h
    unfold GoNetip.parsePrefix at hq
    simp only [bind_eq_bind,bind_eq_some_iff] at hq
    obtain ⟨⟨address,length⟩,hs,a,ha,hq⟩ := hq
    obtain ⟨text,noslash⟩ := lastSlash_split hs
    split at hq
    · cases hq
    obtain ⟨b,hb,rfl⟩ := Option.map_eq_some_iff.mp hq
    have unzoned' : '%' ∉ address := fun hc => clean (by rw [text]; simp [hc])
    have chars := parseAddr_char ha unzoned'
    have digits : ∀ c ∈ length, c.isDigit = true := by
      unfold parseBits at hb
      split at hb
      · cases hb
      · rename_i hn
        simp only [not_or,Bool.not_eq_false] at hn
        exact all_eq_true.mp hn.2.1
    have same : AgentScope.strip t = NetScope.trimSpace t := by
      refine strip_clean fun c hc => ?_
      rw [text] at hc
      rcases mem_append.mp hc with hc | hc
      · exact .inl (chars c hc)
      · rcases mem_cons.mp hc with rfl | hc
        · exact .inr rfl
        · exact .inl (digit_isAddressChar (digits c hc))
    have slashless : '/' ∉ address := fun hc => absurd (chars '/' hc) (by decide)
    have parts : (NetScope.trimSpace t).splitOn '/' = [address,length] := by
      rw [text,splitOn_append_cons_self_of_not_mem slashless,splitOn_eq_singleton noslash]
    rw [same,ipNetwork]
    simp only [parts]
    exact @read_same _ _ ha unzoned' _
      ⟨a.version,a.value,b.val,a.small,b.property⟩ rfl rfl fun c hv => networkOf_length hb hv
  · obtain ⟨a,ha,rfl⟩ := Option.map_eq_some_iff.mp h
    have chars := parseAddr_char ha clean
    have slashless : '/' ∉ NetScope.trimSpace t := fun hc => absurd (chars '/' hc) (by decide)
    rw [strip_clean fun c hc => .inl (chars c hc),ipNetwork]
    simp only [splitOn_eq_singleton slashless]
    have read := @read_same _ _ ha clean none a.full rfl rfl fun c hv => networkOf_bare hv
    rwa [full_masked] at read

end CircuitBreaker.ScopeTexts
