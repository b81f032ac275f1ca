import CircuitBreaker.IpText
import CircuitBreaker.PyDict
import Mathlib.Data.Char
import Mathlib.Data.List.Dedup
import Mathlib.Data.List.Sort
import Mathlib.Data.List.Lex

/-! The entries of an agent's scope, as core/agent_scope.py stores them: prefixes in canonical
form and order, hostname patterns in lower case. -/

namespace CircuitBreaker.AgentScope
open IpText List

/-- A value of a grant's configuration, as JSON carries it. Of a number that is no integer
only whether it is zero is ever asked. -/
inductive Json where
  | null
  | bool (b : Bool)
  | int (n : Int)
  | real (zero : Bool)
  | str (s : Text)
  | list (vs : List Json)
  | object (fields : List (String × Json))

/-- The characters `str.strip` removes. -/
def isSpace (c : Char) : Bool :=
  let n := c.toNat
  9 ≤ n && n ≤ 13 || 28 ≤ n && n ≤ 32 || n == 0x85 || n == 0xA0 || n == 0x1680 ||
    0x2000 ≤ n && n ≤ 0x200A || n == 0x2028 || n == 0x2029 || n == 0x202F || n == 0x205F ||
    n == 0x3000

def strip (t : Text) : Text := ((t.dropWhile isSpace).reverse.dropWhile isSpace).reverse

/-- `str.lower` as far as it reaches ASCII: its letters and the Kelvin sign. What else there
is keeps a character outside ASCII, and no hostname has one. -/
def lower (t : Text) : Text :=
  t.map fun c =>
    if 65 ≤ c.toNat ∧ c.toNat ≤ 90 then Char.ofNat (c.toNat+32)
    else if c.toNat = 0x212A then 'k' else c

def rstripDots (t : Text) : Text := (t.reverse.dropWhile (· = '.')).reverse

theorem strip_of_ends {t : Text} (hh : ∀ c ∈ t.head?, isSpace c = false)
    (hl : ∀ c ∈ t.getLast?, isSpace c = false) : strip t = t := by
  have front : t.dropWhile isSpace = t := by
    cases t with
    | nil => rfl
    | cons c cs => rw [dropWhile_cons_of_neg (by simpa using hh c rfl)]
  have back : t.reverse.dropWhile isSpace = t.reverse := by
    cases hr : t.reverse with
    | nil => rfl
    | cons c cs =>
      have hc : c ∈ t.getLast? := by
        rw [getLast?_eq_head?_reverse,hr]
        rfl
      rw [dropWhile_cons_of_neg (by simpa using hl c hc)]
  rw [strip,front,back,reverse_reverse]

/-! Prefixes. -/

def normalizeScopeCidr (field : String) : Json → Except String Text
  | .str value =>
    match ipNetwork false (strip value) with
    | none => .error (field ++ " entry '" ++ String.ofList value ++
        "' is not a valid CIDR (example: 10.0.0.0/24)")
    | some net =>
      if net.prefixLen = 0 then
        .error (field ++ " entry '" ++ String.ofList value ++
          "' covers the whole address space; 0.0.0.0/0 and ::/0 are not allowed")
      else .ok net.text
  | _ => .error (field ++ " entries must be strings")

def versionNumber : Version → Nat
  | .v4 => 4
  | .v6 => 6

def sortKey (n : Network) : Nat × Nat × Nat :=
  (versionNumber n.address.version,n.address.value,n.prefixLen)

def keyLe (a b : Network) : Prop :=
  (sortKey a).1 < (sortKey b).1 ∨ (sortKey a).1 = (sortKey b).1 ∧
    ((sortKey a).2.1 < (sortKey b).2.1 ∨ (sortKey a).2.1 = (sortKey b).2.1 ∧
      (sortKey a).2.2 ≤ (sortKey b).2.2)

instance : DecidableRel keyLe := fun a b => by
  unfold keyLe
  infer_instance

/-- The order a Python set of networks is walked in: every member once, in any order. -/
structure Iterates (order : List Network → List Network) : Prop where
  nodup : ∀ l, (order l).Nodup
  mem : ∀ l n, n ∈ order l ↔ n ∈ l

section Order
variable (order : List Network → List Network)

def sortedNetworks (nets : List Network) : List Text :=
  ((order nets).insertionSort keyLe).map Network.text

/-- `ipaddress.ip_network` of a text that `normalize_scope_cidr` returned. -/
def readNetwork (t : Text) : Except String Network :=
  match ipNetwork true t with
  | some n => .ok n
  | none => .error ("'" ++ String.ofList t ++ "' does not appear to be an IPv4 or IPv6 network")

def readEntry (field : String) (v : Json) : Except String Network := do
  readNetwork (← normalizeScopeCidr field v)

def normalizeScopeCidrs (field : String) : Json → Except String (List Text)
  | .list values => do
    let nets ← values.mapM (readEntry field)
    return sortedNetworks order nets
  | _ => .error (field ++ " must be a list of CIDR strings")

end Order

/-! Hostname patterns. -/

def isAlnum (c : Char) : Bool := 97 ≤ c.toNat && c.toNat ≤ 122 || 48 ≤ c.toNat && c.toNat ≤ 57

/-- What `[a-z0-9]([a-z0-9-]{0,61}[a-z0-9])?` matches as a whole. -/
def labelCore (l : Text) : Bool :=
  l.length ≤ 63 && l.all (fun c => isAlnum c || c = '-') && l.head?.any isAlnum &&
    l.getLast?.any isAlnum

/-- `_HOSTNAME_LABEL_RE.match`: its `$` also matches before a line end that ends the label. -/
def labelMatches (l : Text) : Bool :=
  labelCore l || l.getLast? = some '\n' && labelCore l.dropLast

def canonicalHostname (host : Text) : Text := rstripDots (lower (strip host))

def labels (name : Text) : List Text :=
  if ['*','.'].isPrefixOf name then (name.drop 2).splitOn '.' else name.splitOn '.'

def normalizeScopeHostname : Json → Except String Text
  | .str value =>
    let name := canonicalHostname value
    let entry := "additional_hostnames entry '" ++ String.ofList value
    if name = [] then .error "additional_hostnames entries must not be empty"
    else if 253 < name.length then .error (entry ++ "' is longer than 253 characters")
    else if (labels name).any (!labelMatches ·) then
      .error (entry ++ "' is not a hostname or '*.example.com' pattern")
    else if (ipAddress name).isSome then
      .error (entry ++ "' is an IP address; use additional_cidrs")
    else .ok name
  | _ => .error "additional_hostnames entries must be strings"

def normalizeHostnames : Json → Except String (List Text)
  | .list values => do
    let names ← values.mapM normalizeScopeHostname
    return names.dedup.insertionSort (· ≤ ·)
  | _ => .error "additional_hostnames must be a list of hostnames"

/-! Prefixes, once more. -/

variable {c : Char} {α : Type} {field : String} {j : Json} {l : Text}

theorem digit_not_space (h : c.isDigit = true) : isSpace c = false := by
  simp only [Char.isDigit,Bool.and_eq_true,decide_eq_true_eq] at h
  have hl : 48 ≤ c.toNat := h.1
  have hu : c.toNat ≤ 57 := h.2
  simp only [isSpace,Bool.or_eq_false_iff,Bool.and_eq_false_iff,decide_eq_false_iff_not,
    beq_eq_false_iff_ne,ne_eq]
  omega

theorem hex_not_space (h : isHex c = true) : isSpace c = false := by
  simp only [isHex,Bool.or_eq_true,Bool.and_eq_true,decide_eq_true_eq] at h
  obtain (h | h) | h := h
  · exact digit_not_space h
  all_goals
    simp only [isSpace,Bool.or_eq_false_iff,Bool.and_eq_false_iff,decide_eq_false_iff_not,
      beq_eq_false_iff_ne,ne_eq]
    omega

theorem address_head {a : Address} (h : c ∈ a.text.head?) : isSpace c = false := by
  unfold Address.text at h
  split at h
  · rcases text4_mem (mem_of_mem_head? h) with rfl | hd
    · rfl
    · exact digit_not_space hd
  · have colon := text6_colon (hextets_length 8 a.value)
    have hne : text6 (hextets 8 a.value) ≠ [] := ne_nil_of_mem colon
    rw [head?_append_of_ne_nil _ hne] at h
    rcases text6_mem (mem_of_mem_head? h) with rfl | hx
    · rfl
    · exact hex_not_space hx

theorem address_text_ne_nil (a : Address) : a.text ≠ [] := by
  unfold Address.text
  split
  · intro he
    have hs := splitOn_text4 a.value
    rw [he] at hs
    simp at hs
  · exact append_ne_nil_of_left_ne_nil (ne_nil_of_mem (text6_colon (hextets_length 8 a.value))) _

theorem strip_network (n : Network) : strip n.text = n.text := by
  apply strip_of_ends
  · intro c hc
    rw [Network.text,head?_append_of_ne_nil _ (address_text_ne_nil n.address)] at hc
    exact address_head hc
  · intro c hc
    have tail : '/'::Nat.toDigits 10 n.prefixLen ≠ [] := by simp
    rw [Network.text,getLast?_append_of_ne_nil _ tail,
      getLast?_cons_of_ne_nil Nat.toDigits_ne_nil] at hc
    exact digit_not_space (Nat.isDigit_of_mem_toDigits (by decide) (by decide)
      (mem_of_mem_getLast? hc))

def entryNetwork : Json → Option Network
  | .str value => ipNetwork false (strip value)
  | _ => none

theorem readNetwork_text (n : Network) : readNetwork n.text = .ok n := by
  rw [readNetwork,ipNetwork_text]

theorem bind_ok {ε β : Type} {x : Except ε α} {f : α → Except ε β} {b : β} :
    (x >>= f) = .ok b ↔ ∃ a, x = .ok a ∧ f a = .ok b := by
  cases x with
  | error e | ok a => simp [bind,Except.bind]

theorem readEntry_ok {v : Json} {n : Network} :
    readEntry field v = .ok n ↔ entryNetwork v = some n ∧ n.prefixLen ≠ 0 := by
  unfold readEntry
  cases v with
  | str value =>
    simp only [normalizeScopeCidr,entryNetwork]
    cases hn : ipNetwork false (strip value) with
    | none => simp [bind,Except.bind]
    | some net =>
      by_cases hz : net.prefixLen = 0
      · simp only [hz,if_true,bind,Except.bind,reduceCtorEq,Option.some.injEq,false_iff,not_and]
        rintro rfl
        simp [hz]
      · simp only [hz,if_false,bind,Except.bind,readNetwork_text,Except.ok.injEq,Option.some.injEq]
        constructor
        · rintro rfl
          exact ⟨rfl,hz⟩
        · exact And.left
  | _ => simp [normalizeScopeCidr,entryNetwork,bind,Except.bind]

/-- What a list of prefixes is stored as: its networks, each once, in the order of their keys. -/
def canonicalNetworks (order : List Network → List Network) (nets : List Network) : List Network :=
  (order nets).insertionSort keyLe

variable {order : List Network → List Network}

theorem normalizeScopeCidrs_ok
    {out : List Text} : normalizeScopeCidrs order field j = .ok out ↔
      ∃ values nets, j = .list values ∧
        List.Forall₂ (fun v n => entryNetwork v = some n ∧ n.prefixLen ≠ 0) values nets ∧
        out = (canonicalNetworks order nets).map Network.text := by
  cases j with
  | list values =>
    simp only [normalizeScopeCidrs,bind_ok,mapM_ok,readEntry_ok,Json.list.injEq]
    constructor
    · rintro ⟨nets,hf,h⟩
      cases h
      exact ⟨values,nets,rfl,hf,rfl⟩
    · rintro ⟨_,nets,rfl,hf,rfl⟩
      exact ⟨nets,hf,rfl⟩
  | _ => simp [normalizeScopeCidrs]

theorem entryNetwork_text (n : Network) : entryNetwork (.str n.text) = some n := by
  rw [entryNetwork,strip_network,ipNetwork_text]

theorem text_injective {a b : Network} (h : a.text = b.text) : a = b := by
  have ha := ipNetwork_text false a
  rw [h,ipNetwork_text] at ha
  exact (Option.some.inj ha).symm

instance : Std.Total keyLe := ⟨fun a b => by
  unfold keyLe
  omega⟩

instance : IsTrans Network keyLe := ⟨fun a b c hab hbc => by
  unfold keyLe at *
  omega⟩

theorem keyLe_antisymm {a b : Network} (h : keyLe a b) (h' : keyLe b a) : sortKey a = sortKey b := by
  unfold keyLe at h h'
  refine Prod.ext (by omega) (Prod.ext (by omega) (by omega))

/-- No two different networks have one key: of a prefix, one zone at most is listed. -/
def ZonesApart (nets : List Network) : Prop :=
  ∀ a ∈ nets, ∀ b ∈ nets, sortKey a = sortKey b → a = b

variable {nets : List Network}

theorem mem_canonical (ho : Iterates order) {n : Network} : n ∈ canonicalNetworks order nets ↔ n ∈ nets := by
  rw [canonicalNetworks,mem_insertionSort,ho.mem]

theorem canonical_nodup (ho : Iterates order)
    (nets : List Network) : (canonicalNetworks order nets).Nodup :=
  (perm_insertionSort keyLe _).nodup_iff.mpr (ho.nodup nets)

theorem canonical_stable (ho : Iterates order) (h : ZonesApart nets) :
    canonicalNetworks order (canonicalNetworks order nets) = canonicalNetworks order nets := by
  refine List.Perm.eq_of_pairwise (fun a b ha hb (hab : keyLe a b) hba => ?_)
    (pairwise_insertionSort keyLe _) (pairwise_insertionSort keyLe _) ?_
  · rw [mem_canonical ho,mem_canonical ho] at ha
    rw [mem_canonical ho] at hb
    exact h a ha b hb (keyLe_antisymm hab hba)
  · refine (perm_ext_iff_of_nodup (canonical_nodup ho _) (canonical_nodup ho _)).mpr fun n => ?_
    rw [mem_canonical ho]

def backwards (l : List Network) : List Network := l.dedup.reverse

theorem backwards_iterates : Iterates backwards where
  nodup l := nodup_reverse.mpr (nodup_dedup l)
  mem l n := by simp [backwards]

theorem pair_sublist {l : List α} {a b : α} (ha : a ∈ l) (hb : b ∈ l) (h : a ≠ b) :
    [a,b].Sublist l ∨ [b,a].Sublist l := by
  induction l with
  | nil => cases ha
  | cons c l ih =>
    rcases mem_cons.mp ha with rfl | inside
    · rcases mem_cons.mp hb with rfl | found
      · exact absurd rfl h
      · exact .inl ((singleton_sublist.mpr found).cons_cons a)
    · rcases mem_cons.mp hb with rfl | found
      · exact .inr ((singleton_sublist.mpr inside).cons_cons b)
      · rcases ih inside found with h | h
        · exact .inl (h.cons c)
        · exact .inr (h.cons c)

theorem nodup_pair {l : List α} {a b : α} (hn : l.Nodup) (h : [a,b].Sublist l)
    (h' : [b,a].Sublist l) : a = b := by
  induction l with
  | nil => cases h
  | cons c l ih =>
    obtain ⟨hc,hn⟩ := nodup_cons.mp hn
    cases h with
    | cons _ h =>
      cases h' with
      | cons _ h' => exact ih hn h h'
      | cons_cons _ h' => exact absurd (h.subset (by simp)) hc
    | cons_cons _ h =>
      cases h' with
      | cons _ h' => exact absurd (h'.subset (by simp)) hc
      | cons_cons _ _ => rfl

theorem backwards_unstable (h : ¬ZonesApart nets) :
    canonicalNetworks backwards (canonicalNetworks backwards nets) ≠
      canonicalNetworks backwards nets := by
  intro same
  simp only [ZonesApart,not_forall] at h
  obtain ⟨a,ha,b,hb,key,hne⟩ := h
  have keys : ∀ {x y : Network}, sortKey x = sortKey y → keyLe x y := fun hk => by
    unfold keyLe
    rw [hk]
    omega
  have nodup := canonical_nodup backwards_iterates nets
  have turned : ∀ {x y : Network}, sortKey x = sortKey y →
      [x,y].Sublist (canonicalNetworks backwards nets) → x = y := by
    intro x y hk hs
    refine nodup_pair nodup hs ?_
    rw [←same]
    refine pair_sublist_insertionSort (keys hk.symm) ?_
    rw [backwards,nodup.dedup]
    exact hs.reverse
  rcases pair_sublist ((mem_canonical backwards_iterates).mpr ha)
    ((mem_canonical backwards_iterates).mpr hb) hne with hs | hs
  · exact hne (turned key hs)
  · exact hne (turned key.symm hs).symm

theorem normalizeScopeCidrs_again (ho : Iterates order) (hz : ∀ n ∈ nets, n.prefixLen ≠ 0) :
    normalizeScopeCidrs order field
        (.list (((canonicalNetworks order nets).map Network.text).map .str)) =
      .ok ((canonicalNetworks order (canonicalNetworks order nets)).map Network.text) := by
  refine normalizeScopeCidrs_ok.mpr ⟨_,canonicalNetworks order nets,rfl,?_,rfl⟩
  rw [map_map,forall₂_map_left_iff,forall₂_same]
  intro n hn
  exact ⟨entryNetwork_text n,hz n ((mem_canonical ho).mp hn)⟩

theorem texts_injective {l l' : List Network} (h : l.map Network.text = l'.map Network.text) :
    l = l' :=
  map_injective_iff.mpr (fun _ _ => text_injective) h

/-! Hostname patterns, once more. -/

/-- What `normalize_scope_hostname` asks of a name in canonical form. -/
def isHostname (name : Text) : Bool :=
  name ≠ [] && name.length ≤ 253 && (labels name).all labelMatches && !(ipAddress name).isSome

variable {name : Text}

theorem isHostname_iff : isHostname name = true ↔ name ≠ [] ∧ ¬253 < name.length ∧
    ¬(labels name).any (!labelMatches ·) = true ∧ ¬(ipAddress name).isSome = true := by
  have hm : (labels name).all labelMatches = true ↔
      ¬(labels name).any (!labelMatches ·) = true := by
    simp [any_eq_true,all_eq_true]
  simp only [isHostname,Bool.and_eq_true,decide_eq_true_eq,hm,Bool.not_eq_true',Bool.not_eq_true,
    not_lt,and_assoc]

theorem normalizeScopeHostname_ok : normalizeScopeHostname j = .ok name ↔
      ∃ value, j = .str value ∧ canonicalHostname value = name ∧ isHostname name = true := by
  cases j with
  | str value =>
    simp only [normalizeScopeHostname,Json.str.injEq,exists_eq_left',isHostname_iff]
    constructor
    · intro h
      split at h
      · cases h
      case isFalse he =>
        split at h
        · cases h
        case isFalse hl =>
          split at h
          · cases h
          case isFalse hm =>
            split at h <;> cases h
            rename_i hi
            exact ⟨rfl,he,hl,hm,hi⟩
    · rintro ⟨rfl,he,hl,hm,hi⟩
      rw [if_neg he,if_neg hl,if_neg hm,if_neg hi]
  | _ => simp [normalizeScopeHostname]

/-- The characters of a hostname pattern, with the line end the label expression lets in. -/
def isPatternChar (c : Char) : Bool :=
  isAlnum c || c = '-' || c = '.' || c = '*' || c = '\n'

theorem alnum_not_space (h : isAlnum c = true) : isSpace c = false := by
  simp only [isAlnum,Bool.or_eq_true,Bool.and_eq_true,decide_eq_true_eq] at h
  simp only [isSpace,Bool.or_eq_false_iff,Bool.and_eq_false_iff,decide_eq_false_iff_not,
    beq_eq_false_iff_ne,ne_eq]
  omega

theorem lower_pattern {t : Text} (h : ∀ c ∈ t, isPatternChar c = true) : lower t = t := by
  have fixed : ∀ c ∈ t, (if 65 ≤ c.toNat ∧ c.toNat ≤ 90 then Char.ofNat (c.toNat+32)
      else if c.toNat = 0x212A then 'k' else c) = c := by
    intro c hc
    have hp := h c hc
    simp only [isPatternChar,isAlnum,Bool.or_eq_true,Bool.and_eq_true,decide_eq_true_eq] at hp
    have small : ¬(65 ≤ c.toNat ∧ c.toNat ≤ 90) ∧ c.toNat ≠ 0x212A := by
      obtain (((hp | rfl) | rfl) | rfl) | rfl := hp
      · omega
      all_goals decide
    rw [if_neg small.1,if_neg small.2]
  rw [lower,map_congr_left fixed,map_id']

theorem labelCore_last (h : labelCore l = true) : ∃ c ∈ l.getLast?, isAlnum c = true := by
  simp only [labelCore,Bool.and_eq_true] at h
  simpa [Option.any_eq_true] using h.2

theorem labelCore_shape (h : labelCore l = true) :
    (∀ c ∈ l.head?, isAlnum c = true) ∧ ∀ c ∈ l, isPatternChar c = true := by
  simp only [labelCore,Bool.and_eq_true,all_eq_true,Bool.or_eq_true,decide_eq_true_eq] at h
  obtain ⟨⟨⟨_,all⟩,head⟩,_⟩ := h
  refine ⟨fun c hc => ?_,fun c hc => ?_⟩
  · cases hh : l.head? with
    | none => simp [hh] at hc
    | some d =>
      rw [hh] at hc head
      cases hc
      exact head
  · have hc := all c hc
    simp only [isPatternChar,Bool.or_eq_true,decide_eq_true_eq]
    tauto

theorem labelMatches_shape (h : labelMatches l = true) :
    (∀ c ∈ l.head?, isAlnum c = true) ∧ (∀ c ∈ l, isPatternChar c = true) ∧
    ((∃ c ∈ l.getLast?, isAlnum c = true) ∨
      ∃ y, l = y++['\n'] ∧ ∃ c ∈ y.getLast?, isAlnum c = true) := by
  simp only [labelMatches,Bool.or_eq_true,Bool.and_eq_true,decide_eq_true_eq] at h
  rcases h with h | ⟨hn,h⟩
  · obtain ⟨head,all⟩ := labelCore_shape h
    exact ⟨head,all,.inl (labelCore_last h)⟩
  · obtain ⟨head,all⟩ := labelCore_shape h
    have split : l = l.dropLast++['\n'] := by
      have hne : l ≠ [] := by
        rintro rfl
        cases hn
      rw [getLast?_eq_some_getLast hne] at hn
      rw [←Option.some.inj hn,dropLast_append_getLast hne]
    obtain ⟨c,hc,ha⟩ := labelCore_last h
    have hne : l.dropLast ≠ [] := by
      intro he
      simp [he] at hc
    refine ⟨fun d hd => ?_,fun d hd => ?_,.inr ⟨l.dropLast,split,c,hc,ha⟩⟩
    · rw [split,head?_append_of_ne_nil _ hne] at hd
      exact head d hd
    · rw [split] at hd
      rcases mem_append.mp hd with hd | hd
      · exact all d hd
      · rw [mem_singleton.mp hd]
        rfl

theorem intercalate_ends {ls : List Text} (h : ls ≠ []) :
    (∃ l ∈ ls, ∃ front, ['.'].intercalate ls = front++l) ∧
    ∃ l ∈ ls, ∃ back, ['.'].intercalate ls = l++back := by
  induction ls with
  | nil => exact absurd rfl h
  | cons l ls ih =>
    cases ls with
    | nil => exact ⟨⟨l,by simp,[],by simp⟩,⟨l,by simp,[],by simp⟩⟩
    | cons m ms =>
      obtain ⟨⟨k,hk,front,hf⟩,_⟩ := ih (by simp)
      rw [intercalate_cons_cons]
      refine ⟨⟨k,mem_cons_of_mem _ hk,l++['.']++front,?_⟩,⟨l,by simp,_,append_assoc ..⟩⟩
      simp [hf]

/-- An accepted name is written in the pattern's characters, starts with no space and ends
with a label that matches. -/
structure PatternText (name : Text) : Prop where
  chars : ∀ c ∈ name, isPatternChar c = true
  head : ∀ c ∈ name.head?, isSpace c = false
  last : ∃ front l, name = front++l ∧ labelMatches l = true

theorem joined_pattern {ls : List Text} (hne : ls ≠ []) (h : ∀ l ∈ ls, labelMatches l = true) :
    PatternText (['.'].intercalate ls) := by
  obtain ⟨⟨l,hl,front,hf⟩,k,hk,back,hb⟩ := intercalate_ends hne
  refine ⟨fun c hc => ?_,fun c hc => ?_,front,l,hf,h l hl⟩
  · rcases mem_intercalate hc with hc | ⟨m,hm,hc⟩
    · rw [mem_singleton.mp hc]
      rfl
    · exact (labelMatches_shape (h m hm)).2.1 c hc
  · have shape := labelMatches_shape (h k hk)
    have hkne : k ≠ [] := by
      rintro rfl
      exact absurd (h [] hk) (by decide)
    rw [hb,head?_append_of_ne_nil _ hkne] at hc
    exact alnum_not_space (shape.1 c hc)

theorem hostname_pattern (h : isHostname name = true) : PatternText name := by
  obtain ⟨_,_,hm,_⟩ := isHostname_iff.mp h
  have all : ∀ l ∈ labels name, labelMatches l = true := by
    simpa [any_eq_true] using hm
  unfold labels at all
  split at all
  case isTrue hp =>
    obtain ⟨rest,rfl⟩ := isPrefixOf_iff_prefix.mp hp
    have text := joined_pattern (splitOn_ne_nil '.' rest) all
    rw [intercalate_splitOn] at text
    obtain ⟨front,l,hf,hl⟩ := text.last
    refine ⟨fun c hc => ?_,fun c hc => ?_,['*','.']++front,l,by rw [hf,append_assoc],hl⟩
    · rcases mem_append.mp hc with hc | hc
      · simp only [mem_cons,not_mem_nil,or_false] at hc
        obtain rfl | rfl := hc <;> rfl
      · exact text.chars c hc
    · cases hc
      rfl
  case isFalse =>
    have text := joined_pattern (splitOn_ne_nil '.' name) all
    rwa [intercalate_splitOn] at text

theorem canonical_self {x : Text} (chars : ∀ c ∈ x, isPatternChar c = true)
    (head : ∀ c ∈ x.head?, isSpace c = false) {e : Char} (last : e ∈ x.getLast?)
    (he : isAlnum e = true) : canonicalHostname x = x := by
  have hs : strip x = x := strip_of_ends head fun c hc => by
    rw [Option.mem_unique hc last]
    exact alnum_not_space he
  have dotless : x.reverse.dropWhile (· = '.') = x.reverse := by
    cases hr : x.reverse with
    | nil => rfl
    | cons c cs =>
      rw [getLast?_eq_head?_reverse,hr] at last
      cases last
      refine dropWhile_cons_of_neg ?_
      rintro hd
      simp only [decide_eq_true_eq] at hd
      subst hd
      cases he
  rw [canonicalHostname,hs,lower_pattern chars,rstripDots,dotless,reverse_reverse]

theorem strip_newline {x : Text} (head : ∀ c ∈ x.head?, isSpace c = false) (hne : x ≠ []) :
    strip (x++['\n']) = strip x := by
  have front : (x++['\n']).dropWhile isSpace = x.dropWhile isSpace++['\n'] := by
    cases x with
    | nil => exact absurd rfl hne
    | cons c cs =>
      have hc : ¬isSpace c = true := by simpa using head c rfl
      rw [cons_append,dropWhile_cons_of_neg hc,dropWhile_cons_of_neg hc, cons_append]
  rw [strip,front,reverse_append]
  rfl

theorem canonical_hostname (h : isHostname name = true) :
    (name.getLast? ≠ some '\n' → canonicalHostname name = name) ∧
    (canonicalHostname name).getLast? ≠ some '\n' := by
  obtain ⟨chars,head,front,l,rfl,hl⟩ := hostname_pattern h
  rcases (labelMatches_shape hl).2.2 with ⟨e,hlast,he⟩ | ⟨y,rfl,e,hlast,he⟩
  · have last : e ∈ (front++l).getLast? := mem_getLast?_append_of_mem_getLast? hlast
    have same := canonical_self chars head last he
    refine ⟨fun _ => same,?_⟩
    rw [same,last]
    rintro hn
    cases hn
    cases he
  · have last : e ∈ (front++y).getLast? := mem_getLast?_append_of_mem_getLast? hlast
    rw [←append_assoc] at chars head ⊢
    have hne : front++y ≠ [] := by
      intro hn
      simp [hn] at last
    have head' : ∀ c ∈ (front++y).head?, isSpace c = false := fun c hc =>
      head c (by rwa [head?_append_of_ne_nil _ hne])
    have same : canonicalHostname (front++y++['\n']) = front++y := by
      rw [canonicalHostname,strip_newline head' hne]
      exact canonical_self (fun c hc => chars c (mem_append_left _ hc)) head' last he
    refine ⟨fun hn => absurd getLast?_concat hn,?_⟩
    rw [same,last]
    rintro hn
    cases hn
    cases he

def endsPlain (name : Text) : Prop := name.getLast? ≠ some '\n'

def canonicalNames (names : List Text) : List Text := names.dedup.insertionSort (· ≤ ·)

theorem mem_canonicalNames {names : List Text} :
    name ∈ canonicalNames names ↔ name ∈ names := by
  rw [canonicalNames,mem_insertionSort,mem_dedup]

theorem canonicalNames_again (names : List Text) :
    canonicalNames (canonicalNames names) = canonicalNames names := by
  have nodup : (canonicalNames names).Nodup :=
    (perm_insertionSort (· ≤ ·) _).nodup_iff.mpr (nodup_dedup names)
  have sorted := pairwise_insertionSort (· ≤ ·) names.dedup
  rw [canonicalNames,nodup.dedup]
  exact sorted.insertionSort_eq

theorem normalizeHostnames_ok {out : List Text} : normalizeHostnames j = .ok out ↔
    ∃ values names, j = .list values ∧ List.Forall₂ (fun v name => ∃ t, v = .str t ∧
      canonicalHostname t = name ∧ isHostname name = true) values names ∧
      out = canonicalNames names := by
  cases j with
  | list values =>
    simp only [normalizeHostnames,bind_ok,mapM_ok,normalizeScopeHostname_ok,Json.list.injEq]
    constructor
    · rintro ⟨names,hf,h⟩
      cases h
      exact ⟨values,names,rfl,hf,rfl⟩
    · rintro ⟨_,names,rfl,hf,rfl⟩
      exact ⟨names,hf,rfl⟩
  | _ => simp [normalizeHostnames]

theorem normalizeHostnames_again {names : List Text} (h : ∀ n ∈ names, isHostname n = true) :
    normalizeHostnames (.list ((canonicalNames names).map .str)) = .ok (canonicalNames names) ↔
      ∀ n ∈ names, endsPlain n := by
  constructor
  · intro hok n hn
    obtain ⟨values,again,hv,hf,hout⟩ := normalizeHostnames_ok.mp hok
    cases hv
    have ha : n ∈ again := by
      rw [←mem_canonicalNames,←hout,mem_canonicalNames]
      exact hn
    obtain ⟨v,hv,t,rfl,rfl,_⟩ := forall₂_mem hf.flip ha
    obtain ⟨m,hm,hmt⟩ := mem_map.mp hv
    rw [←Json.str.inj hmt]
    exact (canonical_hostname (h m (mem_canonicalNames.mp hm))).2
  · intro plain
    refine normalizeHostnames_ok.mpr ⟨_,canonicalNames names,rfl,?_,(canonicalNames_again names).symm⟩
    rw [forall₂_map_left_iff,forall₂_same]
    intro n hn
    have hn := mem_canonicalNames.mp hn
    exact ⟨n,rfl,(canonical_hostname (h n hn)).1 (plain n hn),h n hn⟩

end CircuitBreaker.AgentScope
