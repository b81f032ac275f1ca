import CircuitBreaker.ReleaseTrust
import Mathlib.Data.List.Find

/-! Where the two halves of the trust in a release come to the same answer. -/

namespace CircuitBreaker.ReleaseTrust
open List
open ArchiveCheck (isSpace trim)
open Base64Text TextWords

/-- Three numbers on a line, with an optional `v` before them and an optional prerelease behind a dash. -/
structure Version where
  lead : Bool
  major : Text
  minor : Text
  patch : Text
  suffix : Text
  majorDigits : VersionSort.Digits major
  minorDigits : VersionSort.Digits minor
  patchDigits : VersionSort.Digits patch
  prerelease : VersionSort.Suffix suffix
  line : '\n' ∉ suffix

def Version.text (v : Version) : Text :=
  (if v.lead then ['v'] else [])++VersionSort.dotted v.major v.minor (v.patch++v.suffix)

structure Input where
  keysText : Text
  sums : Text
  sig : Text
  tarball : Tarball
  version : Version

variable (P : Primitives) (A : Awk) (collate : Text → Text → Bool)

structure Parity (x : Input) : Prop where
  keys : parseTrustedKeys P x.keysText = cbReleaseKeys P x.keysText
  signature : ∀ id, verifySumsSignature P x.sums x.sig (parseTrustedKeys P x.keysText) = .ok id ↔
    cbVerifySumsSignature P x.sums x.sig x.keysText = (0,some id)
  entry : findSumsEntry x.sums x.tarball.name = some (P.sha256 x.tarball.content) ↔
    cbVerifySumsEntry P A x.sums x.tarball = 0
  version : releaseRequiresSignature x.version.text = cbReleaseRequiresSignature collate x.version.text
  pin : matchesUnsignedPin (P.sha256 x.tarball.content) x.tarball.name =
    cbBundleMatchesUnsignedPin P x.tarball

/-- A line whose first two words are the id and the base64 text of a key has only blanks around them,
and the base64 text is padded and has zero bits under its padding. -/
def KeysPlain (keysText : Text) : Prop :=
  ∀ line ∈ keysText.splitOn '\n', ∀ id b64 rest, words isSpace line = id::b64::rest →
    (dropCr line).head? ≠ some '#' → isKeyId id = true → looksBase64 b64 = true →
    (lenient b64).length = 32 → (P.sha256 (lenient b64)).take 16 = id →
      canonical b64 = true ∧ ∃ more, words isBlank (dropCr line) = id::b64::more

/-- A text that spells a signature of the sums, and verifies with a trusted key, has no white space but
blanks and line ends, is padded and has zero bits under its padding. -/
def SignaturePlain (x : Input) : Prop :=
  ∀ key ∈ parseTrustedKeys P x.keysText, looksBase64 (compact x.sig) = true →
    (lenient (compact x.sig)).length = 64 → P.verify key.raw x.sums (lenient (compact x.sig)) = true →
      canonical (squeezed x.sig) = true

/-- `sha256sum` does not escape the path, awk takes the name as it is, and the first line that names the
tarball, cut at white space or at blanks, has the same first two words either way. -/
structure EntryNamed (sums : Text) (b : Tarball) : Prop where
  path : b.escaped = false
  assign : A.assign b.name = b.name
  equal : ∀ line ∈ sums.splitOn '\n', A.equal (((words isBlank line)[1]?).getD []) b.name =
    decide (((words isBlank line)[1]?).getD [] = b.name)
  lines : ∀ line, ((sums.splitOn '\n').find? fun line =>
      names b.name (words isSpace line) || names b.name (words isBlank line)) = some line →
    (words isSpace line).take 2 = (words isBlank line).take 2

/-- The digest of a tarball is the first word of a line, as one half or the other reads it. -/
def Listed (sums : Text) (b : Tarball) : Prop :=
  ∃ line ∈ sums.splitOn '\n', (words isSpace line)[0]? = some (P.sha256 b.content) ∨
    (words isBlank line)[0]? = some (sumField P b)

def EntryPlain (sums : Text) (b : Tarball) : Prop := Listed P sums b → EntryNamed A sums b

/-- A version that is 0.4.7 by its numbers, written otherwise and without a prerelease, is sorted behind
"0.4.7". -/
def VersionPlain (v : Version) : Prop :=
  VersionSort.value v.major = 0 → VersionSort.value v.minor = 4 → VersionSort.value v.patch = 7 →
    v.suffix = [] → VersionSort.dotted v.major v.minor v.patch ≠ firstSignedRelease →
      collate firstSignedRelease (VersionSort.dotted v.major v.minor v.patch) = true

/-- A pinned tarball has a path that `sha256sum` does not escape. -/
def PinPlain (b : Tarball) : Prop := (P.sha256 b.content,b.name) ∈ unsignedPins → b.escaped = false

/-! ### Words -/

theorem isSpace_of_isShellSpace (c : Char) (h : isShellSpace c = true) : isSpace c = true := by
  unfold isShellSpace isBlank at h
  simp only [Bool.or_eq_true,decide_eq_true_eq] at h
  obtain ((((rfl | rfl) | rfl) | rfl) | rfl) | rfl := h <;> rfl

theorem isSpace_far {c : Char} (low : 32 < c.toNat) (high : c.toNat < 160) : isSpace c = false := by
  unfold isSpace
  rw [Bool.or_eq_false_iff,decide_eq_false_iff_not,Bool.and_eq_false_iff,decide_eq_false_iff_not]
  refine ⟨fun h => ?_,.inl (by omega)⟩
  simp only [mem_cons,not_mem_nil,or_false] at h
  omega

theorem isHex_far {c : Char} (h : isHex c = true) : 32 < c.toNat ∧ c.toNat < 160 := by
  unfold isHex at h
  simp only [Bool.or_eq_true,Bool.and_eq_true,decide_eq_true_eq,Char.le_def,UInt32.le_iff_toNat_le] at h
  have zero : '0'.val.toNat = 48 := rfl
  have nine : '9'.val.toNat = 57 := rfl
  have a : 'a'.val.toNat = 97 := rfl
  have f : 'f'.val.toNat = 102 := rfl
  change 32 < c.val.toNat ∧ c.val.toNat < 160
  omega

theorem isDigit64_far {c : Char} (h : isDigit64 c = true) : 32 < c.toNat ∧ c.toNat < 160 := by
  unfold isDigit64 Char.isAlphanum Char.isAlpha Char.isUpper Char.isLower Char.isDigit at h
  simp only [Bool.or_eq_true,Bool.and_eq_true,decide_eq_true_eq,ge_iff_le,UInt32.le_iff_toNat_le] at h
  have zero : '0'.val.toNat = 48 := rfl
  have nine : '9'.val.toNat = 57 := rfl
  have a : 'a'.val.toNat = 97 := rfl
  have z : 'z'.val.toNat = 122 := rfl
  have A : 'A'.val.toNat = 65 := rfl
  have Z : 'Z'.val.toNat = 90 := rfl
  change 32 < c.val.toNat ∧ c.val.toNat < 160
  obtain (h | rfl) | rfl := h
  · omega
  · decide
  · decide

theorem padded_plain {t : Text} (h : padded t = true) (c : Char) (hc : c ∈ t) : isSpace c = false := by
  obtain digit | rfl := padded_chars h c hc
  · exact isSpace_far (isDigit64_far digit).1 (isDigit64_far digit).2
  · rfl

theorem isSpace_of_isBlank (c : Char) (h : isBlank c = true) : isSpace c = true := by
  refine isSpace_of_isShellSpace c ?_
  unfold isShellSpace
  rw [h]
  rfl

theorem dropCr_split (line : Text) : line = dropCr line ∨ line = dropCr line++['\r'] := by
  unfold dropCr
  split
  case isTrue last =>
    obtain ⟨front,rfl⟩ := getLast?_eq_some_iff.1 last
    exact .inr (by rw [dropLast_concat])
  case isFalse => exact .inl rfl

theorem words_dropCr (line : Text) : words isSpace (dropCr line) = words isSpace line := by
  obtain same | same := dropCr_split line
  · rw [←same]
  · have cr : ∀ c ∈ ['\r'], isSpace c = true := by
      intro c hc
      rw [mem_singleton.1 hc]
      rfl
    have trail := words_trail (dropCr line) cr
    rw [←same] at trail
    exact trail.symm

theorem words_trim (t : Text) : words isSpace (trim t) = words isSpace t := by
  have front : words isSpace (t.dropWhile isSpace) = words isSpace t := by
    have spaces : ∀ c ∈ t.takeWhile isSpace, isSpace c = true := fun c hc => mem_takeWhile_imp hc
    have lead := words_lead (t.dropWhile isSpace) spaces
    rw [takeWhile_append_dropWhile] at lead
    exact lead.symm
  unfold trim
  rw [←front]
  generalize t.dropWhile isSpace = u
  have split : u = (u.reverse.dropWhile isSpace).reverse++(u.reverse.takeWhile isSpace).reverse := by
    rw [←reverse_append,takeWhile_append_dropWhile,reverse_reverse]
  have spaces : ∀ c ∈ (u.reverse.takeWhile isSpace).reverse, isSpace c = true :=
    fun c hc => mem_takeWhile_imp (mem_reverse.1 hc)
  have trail := words_trail (u.reverse.dropWhile isSpace).reverse spaces
  rw [←split] at trail
  exact trail.symm

theorem jsWords_eq (line : Text) : jsWords line = words isSpace line := by
  unfold jsWords
  rw [words_trim,words_dropCr]

theorem two_words {ws : List Text} {a b : Text} (ha : (ws[0]?).getD [] = a) (hb : (ws[1]?).getD [] = b)
    (some_ : a ≠ []) (more : b ≠ []) : ∃ rest, ws = a::b::rest := by
  cases ws with
  | nil => exact absurd ha.symm some_
  | cons w ws =>
    cases ws with
    | nil => exact absurd hb.symm more
    | cons v ws =>
      have first : w = a := ha
      have second : v = b := hb
      exact ⟨ws,by rw [first,second]⟩

theorem isKeyId_plain {id : Text} (h : isKeyId id = true) : id ≠ [] ∧ ∀ c ∈ id, isSpace c = false := by
  obtain ⟨len,hex⟩ := Bool.and_eq_true_iff.1 h
  have sixteen : id.length = 16 := of_decide_eq_true len
  refine ⟨fun no => ?_,fun c hc => ?_⟩
  · rw [no] at sixteen
    exact nomatch sixteen
  · have far := isHex_far (all_eq_true.1 hex c hc)
    exact isSpace_far far.1 far.2

theorem looksBase64_some {t : Text} (h : looksBase64 t = true) : t ≠ [] ∧ padded t = true := by
  obtain ⟨some_,ok⟩ := Bool.and_eq_true_iff.1 h
  refine ⟨fun no => ?_,ok⟩
  rw [no] at some_
  exact nomatch some_

/-! ### Keys -/

structure Genuine (k : Key) : Prop where
  id : isKeyId k.id = true
  size : k.raw.length = 32
  digest : (P.sha256 k.raw).take 16 = k.id

theorem parseKey_some {line : Text} {k : Key} : parseKey P line = some k ↔
    (dropCr line).head? ≠ some '#' ∧ Genuine P k ∧
      ∃ b64 rest, words isSpace line = k.id::b64::rest ∧ looksBase64 b64 = true ∧ lenient b64 = k.raw := by
  unfold parseKey
  rw [jsWords_eq]
  refine ⟨fun h => ?_,fun ⟨comment,genuine,b64,rest,cut,looks,raw⟩ => ?_⟩
  · dsimp only at h
    split at h
    case isTrue => exact nomatch h
    case isFalse used =>
      obtain ⟨-,comment⟩ := not_or.1 used
      split at h
      case isFalse => exact nomatch h
      case isTrue ok =>
        obtain ⟨id,looks⟩ := Bool.and_eq_true_iff.1 ok
        split at h
        case isFalse => exact nomatch h
        case isTrue good =>
          obtain ⟨rest,cut⟩ := two_words rfl rfl (isKeyId_plain id).1 (looksBase64_some looks).1
          rw [←Option.some.inj h]
          exact ⟨comment,⟨id,good.1,good.2⟩,_,rest,cut,looks,rfl⟩
  · have used : ¬(trim (dropCr line) = [] ∨ (dropCr line).head? = some '#') := by
      refine not_or.2 ⟨fun none => ?_,comment⟩
      rw [←words_dropCr,←words_trim,none] at cut
      exact nomatch cut
    dsimp only
    rw [if_neg used,cut]
    have ok : (isKeyId k.id && looksBase64 b64) = true := by rw [genuine.id,looks]; rfl
    have good : (lenient b64).length = 32 ∧ (P.sha256 (lenient b64)).take 16 = k.id := by
      rw [raw]
      exact ⟨genuine.size,genuine.digest⟩
    have same : some ⟨k.id,lenient b64⟩ = some k := by rw [raw]
    exact (if_pos ok).trans ((if_pos good).trans same)

theorem releaseKey_some {line : Text} {k : Key} : releaseKey P line = some k ↔
    (dropCr line).head? ≠ some '#' ∧ Genuine P k ∧
      ∃ b64 rest, words isBlank (dropCr line) = k.id::b64::rest ∧ canonical b64 = true ∧ lenient b64 = k.raw := by
  unfold releaseKey
  constructor
  · intro h
    dsimp only at h
    split at h
    case isTrue => cases h
    case isFalse used =>
      obtain ⟨-,comment⟩ := not_or.1 used
      split at h
      case isFalse => cases h
      case isTrue id =>
        split at h
        case h_1 => cases h
        case h_2 raw read =>
          obtain ⟨good,rfl⟩ := strict_some read
          split at h
          case isFalse => cases h
          case isTrue whole =>
            have some_ : ((words isBlank (dropCr line))[1]?).getD [] ≠ [] := by
              intro no
              rw [no] at whole
              cases whole.1
            obtain ⟨rest,cut⟩ := two_words rfl rfl (isKeyId_plain id).1 some_
            rw [←Option.some.inj h]
            exact ⟨comment,⟨id,whole.1,whole.2⟩,_,rest,cut,good,rfl⟩
  · rintro ⟨comment,genuine,b64,rest,cut,good,raw⟩
    have used : ¬((dropCr line).all isShellSpace = true ∨ (dropCr line).head? = some '#') := by
      refine not_or.2 ⟨fun blank => ?_,comment⟩
      obtain ⟨lead,behind,split,-,some_,-⟩ := words_first cut
      obtain ⟨c,w,same⟩ := exists_cons_of_ne_nil some_
      have within : c ∈ dropCr line := by
        rw [split,same]
        simp
      have space := isSpace_of_isShellSpace c (all_eq_true.1 blank c within)
      rw [(isKeyId_plain genuine.id).2 c (by rw [same]; simp)] at space
      cases space
    have whole : (lenient b64).length = 32 ∧ (P.sha256 (lenient b64)).take 16 = k.id := by
      rw [raw]
      exact ⟨genuine.size,genuine.digest⟩
    dsimp only
    rw [if_neg used,cut]
    refine (if_pos genuine.id).trans ?_
    have second : ((k.id::b64::rest)[1]?).getD [] = b64 := rfl
    rw [second,strict_canonical good]
    have same : some ⟨k.id,lenient b64⟩ = some k := by rw [raw]
    exact (if_pos whole).trans same

theorem parseKey_of_releaseKey {line : Text} {k : Key} (h : releaseKey P line = some k) :
    parseKey P line = some k := by
  obtain ⟨comment,genuine,b64,rest,cut,good,raw⟩ := (releaseKey_some P).1 h
  have some_ : lenient b64 ≠ [] := by
    rw [raw]
    exact fun no => nomatch no ▸ genuine.size
  obtain ⟨behind,more,first⟩ := words_wider cut isSpace_of_isBlank (isKeyId_plain genuine.id).2
  obtain ⟨_,-,second⟩ := words_wider more isSpace_of_isBlank (padded_plain (canonical_padded good))
  rw [second,words_dropCr] at first
  exact (parseKey_some P).2 ⟨comment,genuine,b64,_,first,canonical_looks good some_,raw⟩

section Lists
variable {α β : Type} {f g : α → Option β}

theorem filterMap_shorter (less : ∀ a b, g a = some b → f a = some b) (l : List α) :
    (l.filterMap g).length ≤ (l.filterMap f).length := by
  induction l with
  | nil => exact Nat.le_refl _
  | cons a l ih =>
    cases hg : g a with
    | none =>
      rw [filterMap_cons_none hg]
      cases hf : f a with
      | none => rwa [filterMap_cons_none hf]
      | some b =>
        rw [filterMap_cons_some hf,length_cons]
        omega
    | some b =>
      rw [filterMap_cons_some hg,filterMap_cons_some (less a b hg),length_cons,length_cons]
      omega

theorem filterMap_same (less : ∀ a b, g a = some b → f a = some b) (l : List α) :
    l.filterMap f = l.filterMap g ↔ ∀ a ∈ l, ∀ b, f a = some b → g a = some b := by
  induction l with
  | nil => simp
  | cons a l ih =>
    rw [forall_mem_cons]
    cases hg : g a with
    | some b =>
      have hf := less a b hg
      rw [filterMap_cons_some hg,filterMap_cons_some hf,cons_inj_right,ih,hf]
      exact ⟨fun h => ⟨fun _ same => same,h⟩,fun h => h.2⟩
    | none =>
      rw [filterMap_cons_none hg]
      cases hf : f a with
      | none =>
        rw [filterMap_cons_none hf,ih]
        exact ⟨fun h => ⟨nofun,h⟩,fun h => h.2⟩
      | some b =>
        rw [filterMap_cons_some hf]
        refine ⟨fun h => ?_,fun h => nomatch h.1 b rfl⟩
        have short := filterMap_shorter less l
        rw [←h,length_cons] at short
        omega

end Lists

theorem cbReleaseKeys_lines (text : Text) :
    cbReleaseKeys P text = (text.splitOn '\n').filterMap (releaseKey P) := by
  unfold cbReleaseKeys
  induction text using List.reverseRecOn with
  | nil => rfl
  | append_singleton text c ih =>
    by_cases newline : c = '\n'
    · have line : (text++['\n']).splitOn '\n' = text.splitOn '\n'++[[]] := by
        unfold List.splitOn
        rw [splitOnP_append_cons text [] (by rfl)]
        rfl
      rw [newline,rdropWhile_concat_pos _ _ _ (by rfl),ih,line,filterMap_append]
      exact (append_nil _).symm
    · rw [rdropWhile_concat_neg _ _ _ (by simpa using newline)]

theorem keys_same (text : Text) :
    parseTrustedKeys P text = cbReleaseKeys P text ↔ KeysPlain P text := by
  rw [cbReleaseKeys_lines]
  refine (filterMap_same (fun _ _ => parseKey_of_releaseKey P) _).trans ?_
  unfold KeysPlain
  refine forall₂_congr fun line _ => ⟨fun h id b64 rest cut comment hex looks size digest => ?_,fun h k taken => ?_⟩
  · have taken : parseKey P line = some ⟨id,lenient b64⟩ :=
      (parseKey_some P).2 ⟨comment,⟨hex,size,digest⟩,b64,rest,cut,looks,rfl⟩
    obtain ⟨-,-,key,more,plain,good,-⟩ := (releaseKey_some P).1 (h _ taken)
    obtain ⟨behind,inner,first⟩ := words_wider plain isSpace_of_isBlank (isKeyId_plain hex).2
    obtain ⟨_,-,second⟩ := words_wider inner isSpace_of_isBlank (padded_plain (canonical_padded good))
    rw [second,words_dropCr,cut] at first
    obtain ⟨same,-⟩ := List.cons.inj (List.cons.inj first).2
    rw [same]
    exact ⟨good,more,plain⟩
  · obtain ⟨comment,genuine,b64,rest,cut,looks,raw⟩ := (parseKey_some P).1 taken
    obtain ⟨good,more,plain⟩ := h k.id b64 rest cut comment genuine.id looks (by rw [raw]; exact genuine.size)
      (by rw [raw]; exact genuine.digest)
    exact (releaseKey_some P).2 ⟨comment,genuine,b64,more,plain,good,raw⟩

/-! ### Signature -/

theorem compact_squeezed {sig : Text} (good : canonical (squeezed sig) = true) : compact sig = squeezed sig := by
  have wide : compact sig = (squeezed sig).filter fun c => !isSpace c := by
    unfold compact squeezed
    rw [filter_filter]
    refine filter_congr fun c _ => ?_
    cases space : isSpace c with
    | true => rfl
    | false =>
      have shell : isShellSpace c = false := by
        cases h : isShellSpace c with
        | true => exact nomatch space.symm.trans (isSpace_of_isShellSpace c h)
        | false => rfl
      simp only [isShellSpace,Bool.or_eq_false_iff] at shell
      rw [shell.1.1.1.1,shell.2,shell.1.1.1.2]
      rfl
  rw [wide]
  refine filter_eq_self.2 fun c hc => ?_
  rw [padded_plain (canonical_padded good) c hc]
  rfl

theorem verifySumsSignature_ok {sums sig : Text} {keys : List Key} {id : Text} :
    verifySumsSignature P sums sig keys = .ok id ↔ looksBase64 (compact sig) = true ∧
      (lenient (compact sig)).length = 64 ∧
      ∃ key, (keys.find? fun key => P.verify key.raw sums (lenient (compact sig))) = some key ∧ key.id = id := by
  unfold verifySumsSignature
  refine ⟨fun h => ?_,fun ⟨looks,size,key,found,named⟩ => ?_⟩
  · split at h
    case isTrue => exact nomatch h
    case isFalse =>
      split at h
      case isTrue => exact nomatch h
      case isFalse looks =>
        split at h
        case isTrue => exact nomatch h
        case isFalse size =>
          split at h
          case h_1 key found => exact ⟨by simpa using looks,not_not.1 size,key,found,SumsVerdict.ok.inj h⟩
          case h_2 => exact nomatch h
  · have some_ : keys ≠ [] := by
      rintro rfl
      exact nomatch found
    rw [if_neg some_,looks,if_neg (by decide),if_neg (not_not.2 size),found,←named]

theorem cbVerifySumsSignature_ok {sums sig keysText id : Text} :
    cbVerifySumsSignature P sums sig keysText = (0,some id) ↔ canonical (squeezed sig) = true ∧
      (lenient (squeezed sig)).length = 64 ∧
      ∃ key, ((cbReleaseKeys P keysText).find? fun key => P.verify key.raw sums (lenient (squeezed sig))) = some key ∧
        key.id = id := by
  unfold cbVerifySumsSignature
  refine ⟨fun h => ?_,fun ⟨good,size,key,found,named⟩ => ?_⟩
  · split at h
    case h_1 => exact nomatch congrArg Prod.fst h
    case h_2 raw read =>
      obtain ⟨good,rfl⟩ := strict_some read
      split at h
      case isTrue => exact nomatch congrArg Prod.fst h
      case isFalse size =>
        split at h
        case isTrue => exact nomatch congrArg Prod.fst h
        case isFalse =>
          split at h
          case h_1 key found => exact ⟨good,not_not.1 size,key,found,Option.some.inj (congrArg Prod.snd h)⟩
          case h_2 => exact nomatch congrArg Prod.fst h
  · have some_ : cbReleaseKeys P keysText ≠ [] := by
      intro none
      rw [none] at found
      exact nomatch found
    rw [strict_canonical good]
    dsimp only
    rw [if_neg (not_not.2 size),if_neg some_,found,←named]

theorem signature_same (x : Input) (keys : parseTrustedKeys P x.keysText = cbReleaseKeys P x.keysText) :
    (∀ id, verifySumsSignature P x.sums x.sig (parseTrustedKeys P x.keysText) = .ok id ↔
      cbVerifySumsSignature P x.sums x.sig x.keysText = (0,some id)) ↔ SignaturePlain P x := by
  refine ⟨fun h key trusted looks size verified => ?_,fun h id => ?_⟩
  · cases found : (parseTrustedKeys P x.keysText).find? fun key =>
        P.verify key.raw x.sums (lenient (compact x.sig)) with
    | none => exact absurd verified (find?_eq_none.1 found key trusted)
    | some first =>
      have accepted := (verifySumsSignature_ok P).2 ⟨looks,size,first,found,rfl⟩
      exact ((cbVerifySumsSignature_ok P).1 ((h first.id).1 accepted)).1
  · rw [verifySumsSignature_ok,cbVerifySumsSignature_ok,keys]
    refine ⟨fun ⟨looks,size,key,found,named⟩ => ?_,fun ⟨good,size,key,found,named⟩ => ?_⟩
    · have trusted : key ∈ parseTrustedKeys P x.keysText := by
        rw [keys]
        exact mem_of_find?_eq_some found
      have verified : P.verify key.raw x.sums (lenient (compact x.sig)) = true := by
        simpa using find?_some found
      have good := h key trusted looks size verified
      rw [compact_squeezed good] at size found
      exact ⟨good,size,key,found,named⟩
    · have some_ : lenient (squeezed x.sig) ≠ [] := fun no => by
        rw [no] at size
        exact nomatch size
      rw [compact_squeezed good]
      exact ⟨canonical_looks good some_,size,key,found,named⟩

/-! ### Entry -/

theorem find_either {α : Type} {f g : α → Bool} {l : List α}
    (h : ∀ a, (l.find? fun a => f a || g a) = some a → f a = g a) :
    l.find? f = (l.find? fun a => f a || g a) ∧ l.find? g = l.find? fun a => f a || g a := by
  induction l with
  | nil => exact ⟨rfl,rfl⟩
  | cons a l ih =>
    simp only [find?_cons] at h ⊢
    cases either : f a || g a with
    | false =>
      obtain ⟨notF,notG⟩ := Bool.or_eq_false_iff.1 either
      rw [notF,notG]
      refine ih fun b found => h b ?_
      rw [either]
      exact found
    | true =>
      have same := h a (by rw [either])
      rw [←same,Bool.or_self] at either
      rw [←same,either]
      exact ⟨rfl,rfl⟩

theorem names_take {name : Text} {ws vs : List Text} (h : ws.take 2 = vs.take 2) :
    names name ws = names name vs ∧ ws[0]? = vs[0]? := by
  have at_ : ∀ i < 2, ws[i]? = vs[i]? := by
    intro i low
    rw [←getElem?_take_of_lt low,h,getElem?_take_of_lt low]
  unfold names
  rw [at_ 1 (by decide)]
  exact ⟨rfl,at_ 0 (by decide)⟩

variable {P} in
theorem Tarball.digest (b : Tarball) : P.sha256 b.content ≠ [] := by
  intro no
  have digest := P.digest b.content
  rw [no] at digest
  exact nomatch digest

theorem sumField_some (b : Tarball) : sumField P b ≠ [] := by
  unfold sumField
  split
  case isTrue => exact nofun
  case isFalse => exact b.digest

theorem findSumsEntry_some {sums : Text} {b : Tarball} :
    findSumsEntry sums b.name = some (P.sha256 b.content) ↔
      ∃ line, ((sums.splitOn '\n').find? fun line => names b.name (words isSpace line)) = some line ∧
        (words isSpace line)[0]? = some (P.sha256 b.content) := by
  unfold findSumsEntry
  simp only [jsWords_eq]
  cases (sums.splitOn '\n').find? fun line => names b.name (words isSpace line) with
  | none => exact ⟨nofun,fun ⟨_,no,_⟩ => nomatch no⟩
  | some line =>
    refine ⟨fun h => ⟨line,rfl,?_⟩,fun ⟨_,same,first⟩ => ?_⟩
    · dsimp only at h
      split at h
      case isFalse => exact nomatch h
      case isTrue =>
        cases first : (words isSpace line)[0]? with rw [first] at h
        | none =>
          exact absurd (Option.some.inj h).symm b.digest
        | some word =>
          exact h
    · rw [←Option.some.inj same] at first
      dsimp only
      rw [first]
      exact if_pos (P.digest b.content)

theorem cbVerifySumsEntry_zero {sums : Text} {b : Tarball} :
    cbVerifySumsEntry P A sums b = 0 ↔
      ∃ line, ((sums.splitOn '\n').find? fun line => awkNames A b.basename (words isBlank line)) = some line ∧
        (words isBlank line)[0]? = some (sumField P b) := by
  unfold cbVerifySumsEntry
  cases (sums.splitOn '\n').find? fun line => awkNames A b.basename (words isBlank line) with
  | none => exact ⟨nofun,fun ⟨_,no,_⟩ => nomatch no⟩
  | some line =>
    refine ⟨fun h => ⟨line,rfl,?_⟩,fun ⟨_,same,first⟩ => ?_⟩
    · dsimp only at h
      split at h
      case isTrue => exact nomatch h
      case isFalse some_ =>
        split at h
        case isFalse => exact nomatch h
        case isTrue match_ =>
          cases first : (words isBlank line)[0]? with
          | none =>
            rw [first] at some_
            exact absurd rfl some_
          | some word =>
            rw [first] at match_
            rw [match_]
            rfl
    · rw [←Option.some.inj same] at first
      dsimp only
      rw [first]
      exact (if_neg (sumField_some P b)).trans (if_pos rfl)

theorem Tarball.basename_plain {b : Tarball} (h : b.escaped = false) : b.basename = b.name := by
  refine rdropWhile_eq_self_iff.2 fun some_ newline => ?_
  have within : b.name.getLast some_ ∈ b.dir ++ '/' :: b.name :=
    mem_append_right _ (mem_cons_of_mem _ (getLast_mem some_))
  have plain := any_eq_false.1 h _ within
  rw [of_decide_eq_true newline] at plain
  exact absurd rfl plain

theorem entry_same {sums : Text} {b : Tarball} (plain : EntryPlain P A sums b) :
    findSumsEntry sums b.name = some (P.sha256 b.content) ↔ cbVerifySumsEntry P A sums b = 0 := by
  rw [findSumsEntry_some,cbVerifySumsEntry_zero]
  by_cases listed : Listed P sums b
  · obtain ⟨path,assign,equal,lines⟩ := plain listed
    have field : sumField P b = P.sha256 b.content := if_neg (by rw [path]; decide)
    have awk : ∀ line ∈ sums.splitOn '\n',
        awkNames A b.basename (words isBlank line) = names b.name (words isBlank line) := by
      intro line hline
      unfold awkNames names
      dsimp only
      rw [Tarball.basename_plain path,assign,equal line hline]
      cases (words isBlank line)[1]? with
      | none => simp [b.named.symm]
      | some word => simp
    have either := find_either fun line first => (@names_take b.name _ _ (lines line first)).1
    rw [find?_congr awk,either.1,either.2,field]
    refine exists_congr fun line => and_congr_right fun first => ?_
    rw [(@names_take b.name _ _ (lines line first)).2]
  · refine ⟨fun ⟨line,first,word⟩ => absurd ⟨line,mem_of_find?_eq_some first,.inl word⟩ listed,
      fun ⟨line,first,word⟩ => absurd ⟨line,mem_of_find?_eq_some first,.inr word⟩ listed⟩

/-! ### Version -/

/-- A version without its `v`. -/
def Version.plain (v : Version) : Text := VersionSort.dotted v.major v.minor (v.patch++v.suffix)

theorem Version.text_plain (v : Version) : withoutV v.text = v.plain := by
  unfold withoutV Version.text Version.plain
  cases v.lead with
  | true => rfl
  | false =>
    obtain ⟨d,u,first,digit⟩ := v.majorDigits.cons
    have other : d ≠ 'v' := fun no => nomatch no ▸ digit
    unfold VersionSort.dotted
    rw [first]
    simp [other]

theorem spanDigits_append {a x : Text} (h : VersionSort.Digits a) (ends : VersionSort.Ends x) :
    spanDigits (a++x) = (a,x) := by
  have none : x.takeWhile Char.isDigit = [] ∧ x.dropWhile Char.isDigit = x := by
    cases x with
    | nil => exact ⟨rfl,rfl⟩
    | cons c x =>
      have plain : c.isDigit = false := ends
      simp [plain]
  unfold spanDigits
  rw [takeWhile_append_of_pos h.2,dropWhile_append_of_pos h.2,none.1,none.2,append_nil]

theorem Version.core (v : Version) : ReleaseTrust.core v.text =
    some (VersionSort.value v.major,VersionSort.value v.minor,VersionSort.value v.patch) := by
  have start : (if v.text.head? = some 'v' then v.text.tail else v.text) = v.plain := v.text_plain
  unfold ReleaseTrust.core
  dsimp only
  rw [start]
  unfold Version.plain VersionSort.dotted
  rw [spanDigits_append v.majorDigits (VersionSort.ends_dot _)]
  have behind (t : Text) : dot ('.'::t) = some t := rfl
  simp only [behind,Option.bind_eq_bind,Option.bind_some,
    spanDigits_append v.minorDigits (VersionSort.ends_dot _),
    spanDigits_append v.patchDigits v.prerelease.ends]
  have some_ : ¬(v.major = [] ∨ v.minor = [] ∨ v.patch = []) :=
    not_or.2 ⟨v.majorDigits.1,not_or.2 ⟨v.minorDigits.1,v.patchDigits.1⟩⟩
  exact if_neg some_

/-- The numbers of "0.4.7" against those of a version. -/
def Version.against (v : Version) : Ordering :=
  VersionSort.compareThree 0 4 7 (VersionSort.value v.major) (VersionSort.value v.minor) (VersionSort.value v.patch)

theorem not_gt_then (n a : Nat) (o : Ordering) :
    ((compare n a).then o != .gt) = if a ≠ n then decide (a > n) else o != .gt := by
  obtain low | same | high := Nat.lt_trichotomy n a
  · rw [Nat.compare_eq_lt.2 low,if_pos (by omega),decide_eq_true low]
    rfl
  · rw [Nat.compare_eq_eq.2 same,if_neg (by omega)]
    rfl
  · rw [Nat.compare_eq_gt.2 high,if_pos (by omega),decide_eq_false (by omega)]
    rfl

theorem Version.requires (v : Version) : releaseRequiresSignature v.text = (v.against != .gt) := by
  have last := not_gt_then 7 (VersionSort.value v.patch) .eq
  rw [Ordering.then_eq] at last
  unfold releaseRequiresSignature against VersionSort.compareThree
  rw [v.core,not_gt_then,not_gt_then,last]
  rfl

theorem Version.sorted (v : Version) : VersionSort.filenvercmp firstSignedRelease v.plain =
    v.against.then (if v.suffix = [] then .eq else .lt) := by
  exact VersionSort.filenvercmp_dotted (a := ['0']) (b := ['4']) (c := ['7']) (.all (by decide) rfl)
    (.all (by decide) rfl) (.all (by decide) rfl) v.majorDigits v.minorDigits v.patchDigits v.prerelease

theorem Version.plain_first (v : Version) (same : v.plain = firstSignedRelease) : v.against = .eq := by
  have sorted := v.sorted
  rw [same,show VersionSort.filenvercmp firstSignedRelease firstSignedRelease = .eq by decide] at sorted
  cases h : v.against with
  | eq => rfl
  | lt | gt => exact nomatch h ▸ sorted

theorem Version.against_eq (v : Version) : v.against = .eq ↔
    VersionSort.value v.major = 0 ∧ VersionSort.value v.minor = 4 ∧ VersionSort.value v.patch = 7 := by
  unfold against VersionSort.compareThree
  rw [Ordering.then_eq_eq,Ordering.then_eq_eq,Nat.compare_eq_eq,Nat.compare_eq_eq,Nat.compare_eq_eq]
  exact ⟨fun ⟨a,b,c⟩ => ⟨a.symm,b.symm,c.symm⟩,fun ⟨a,b,c⟩ => ⟨a.symm,b.symm,c.symm⟩⟩

theorem VersionPlain.iff (v : Version) : VersionPlain collate v ↔
    (v.against = .eq → v.suffix = [] → v.plain ≠ firstSignedRelease →
      collate firstSignedRelease v.plain = true) := by
  unfold VersionPlain
  have bare : v.suffix = [] → VersionSort.dotted v.major v.minor v.patch = v.plain := by
    intro none
    unfold Version.plain
    rw [none,append_nil]
  rw [v.against_eq]
  refine ⟨fun h ⟨major,minor,patch⟩ none other => ?_,fun h major minor patch none other => ?_⟩
  · rw [←bare none] at other ⊢
    exact h major minor patch none other
  · rw [bare none] at other ⊢
    exact h ⟨major,minor,patch⟩ none other

theorem version_same (v : Version) :
    releaseRequiresSignature v.text = cbReleaseRequiresSignature collate v.text ↔ VersionPlain collate v := by
  have some_ : v.plain ≠ [] := fun no => v.majorDigits.1 (append_eq_nil_iff.1 no).1
  unfold cbReleaseRequiresSignature VersionSort.first
  rw [VersionPlain.iff,v.requires,v.text_plain,if_neg some_,v.sorted]
  cases h : v.against with
  | lt => exact ⟨nofun,fun _ => (decide_eq_true rfl).symm⟩
  | gt =>
    have other : v.plain ≠ firstSignedRelease := fun same => nomatch h.symm.trans (v.plain_first same)
    exact ⟨nofun,fun _ => (decide_eq_false other).symm⟩
  | eq =>
    by_cases none : v.suffix = []
    · rw [if_pos none]
      change true = decide ((if collate firstSignedRelease v.plain = true then firstSignedRelease else v.plain) =
        firstSignedRelease) ↔ _
      rw [eq_comm,decide_eq_true_iff]
      refine ⟨fun first _ _ other => by_contra fun behind => other ?_,fun plain => ?_⟩
      · rwa [if_neg behind] at first
      · split
        case isTrue => rfl
        case isFalse behind => exact by_contra fun other => behind (plain rfl none other)
    · rw [if_neg none]
      exact ⟨(fun _ _ some_ => absurd some_ none),fun _ => (decide_eq_true rfl).symm⟩

/-! ### Pins -/

theorem cbUnsignedPins_map :
    cbUnsignedPins = unsignedPins.map fun pin => pin.1 ++ ' ' :: ' ' :: pin.2 := by
  simp only [cbUnsignedPins,unsignedPins,map_cons,map_nil]
  repeat rw [String.toList_ofList]
  rfl

theorem unsignedPins_digest : ∀ pin ∈ unsignedPins, isDigest pin.1 = true := by
  simp only [unsignedPins,forall_mem_cons]
  repeat rw [String.toList_ofList]
  decide

theorem isDigest_length {t : Text} (h : isDigest t = true) : t.length = 64 :=
  of_decide_eq_true (Bool.and_eq_true_iff.1 h).1

theorem matchesUnsignedPin_mem (sha256 name : Text) :
    matchesUnsignedPin sha256 name = true ↔ (sha256,name) ∈ unsignedPins := by
  unfold matchesUnsignedPin
  rw [any_eq_true]
  refine ⟨fun ⟨pin,within,same⟩ => ?_,fun within => ⟨_,within,by simp⟩⟩
  obtain ⟨digest,named⟩ := Bool.and_eq_true_iff.1 same
  rw [←of_decide_eq_true digest,←of_decide_eq_true named]
  exact within

theorem cbBundleMatchesUnsignedPin_mem (b : Tarball) :
    cbBundleMatchesUnsignedPin P b = true ↔ b.escaped = false ∧ (P.sha256 b.content,b.name) ∈ unsignedPins := by
  unfold cbBundleMatchesUnsignedPin
  rw [cbUnsignedPins_map,any_map,any_eq_true]
  cases path : b.escaped with
  | true =>
    refine ⟨fun ⟨pin,within,same⟩ => ?_,fun h => nomatch h.1⟩
    -- The mark of `sha256sum` stands where a pin has a hex digit.
    have line : sumField P b ++ ' ' :: ' ' :: b.basename = pin.1 ++ ' ' :: ' ' :: pin.2 :=
      of_decide_eq_true same
    have field : sumField P b = '\\'::P.sha256 b.content := if_pos path
    have digest := unsignedPins_digest pin within
    rw [field] at line
    cases first : pin.1 with
    | nil => exact nomatch first ▸ isDigest_length digest
    | cons c rest =>
      rw [first] at line digest
      have mark : '\\' = c := (List.cons.inj line).1
      have hex := all_eq_true.1 (Bool.and_eq_true_iff.1 digest).2 c (by simp)
      exact nomatch mark ▸ hex
  | false =>
    have field : sumField P b = P.sha256 b.content := if_neg (by rw [path]; decide)
    refine ⟨fun ⟨pin,within,same⟩ => ⟨rfl,?_⟩,fun ⟨_,within⟩ => ⟨_,within,?_⟩⟩
    · have line := of_decide_eq_true same
      rw [field,Tarball.basename_plain path] at line
      have sizes : (P.sha256 b.content).length = pin.1.length := by
        rw [isDigest_length (P.digest _),isDigest_length (unsignedPins_digest pin within)]
      obtain ⟨digest,behind⟩ := append_inj line sizes
      have named : b.name = pin.2 := (List.cons.inj (List.cons.inj behind).2).2
      rw [digest,named]
      exact within
    · rw [field,Tarball.basename_plain path]
      exact decide_eq_true rfl

theorem pin_same (b : Tarball) :
    matchesUnsignedPin (P.sha256 b.content) b.name = cbBundleMatchesUnsignedPin P b ↔ PinPlain P b := by
  rw [Bool.eq_iff_iff,matchesUnsignedPin_mem,cbBundleMatchesUnsignedPin_mem]
  exact ⟨fun same pinned => (same.1 pinned).1,fun plain => ⟨fun pinned => ⟨plain pinned,pinned⟩,fun h => h.2⟩⟩

/-! ### Both halves -/

/-- What a set of inputs must be for both halves to give the same answers. -/
structure Plain (x : Input) : Prop where
  keys : KeysPlain P x.keysText
  signature : SignaturePlain P x
  version : VersionPlain collate x.version
  pin : PinPlain P x.tarball

def zeroLed : Input where
  keysText := []
  sums := []
  sig := []
  tarball := ⟨"dist".toList,"circuit-breaker_0.04.7_linux_amd64.tar.gz".toList,[],by decide,by decide⟩
  version := ⟨false,['0'],['0','4'],['7'],[],.all (by decide) rfl,.all (by decide) rfl,.all (by decide) rfl,.inl rfl,
    by decide⟩

end CircuitBreaker.ReleaseTrust
