import CircuitBreaker.ArchiveCheck
import CircuitBreaker.Base64Text
import CircuitBreaker.TextWords
import CircuitBreaker.VersionSort
import Mathlib.Data.List.DropRight

/-! The trust in a release, decided twice: by the CLI (packages/cli/src/release-trust.js) and by the shell
installers (deploy/lib/bundle-signature.sh). -/

namespace CircuitBreaker.ReleaseTrust
open ArchiveCheck (isSpace trim)
open Base64Text TextWords

abbrev Text := List Char

def isHex (c : Char) : Bool := ('0' ≤ c && c ≤ '9') || ('a' ≤ c && c ≤ 'f')

def isKeyId (t : Text) : Bool := t.length = 16 && t.all isHex

def isDigest (t : Text) : Bool := t.length = 64 && t.all isHex

/-- The primitives of both halves: a SHA-256 digest in hex, and whether a signature of a text verifies
with a raw Ed25519 key. -/
structure Primitives where
  sha256 : Bytes → Text
  digest : ∀ b, isDigest (sha256 b) = true
  verify : Bytes → Text → Bytes → Bool

/-- How awk takes the value of `-v`, and `==` of a field and such a value, which compares numbers where
both look like one. -/
structure Awk where
  assign : Text → Text
  equal : Text → Text → Bool

/-- A tarball as a path, the last part of which is its name, and its bytes. -/
structure Tarball where
  dir : Text
  name : Text
  content : Bytes
  named : name ≠ []
  plain : '/' ∉ name

structure Key where
  id : Text
  raw : Bytes

/-- `replace(/\r$/, '')` and `%$'\r'` -/
def dropCr (line : Text) : Text := if line.getLast? = some '\r' then line.dropLast else line

variable (P : Primitives)

/-! ### JavaScript -/

def jsWords (line : Text) : List Text := words isSpace (trim (dropCr line))

/-- A line of `parseTrustedKeys`. -/
def parseKey (line : Text) : Option Key :=
  let id := ((jsWords line)[0]?).getD []
  let b64 := ((jsWords line)[1]?).getD []
  if trim (dropCr line) = [] ∨ (dropCr line).head? = some '#' then none
  else if isKeyId id && looksBase64 b64 then
    if (lenient b64).length = 32 ∧ (P.sha256 (lenient b64)).take 16 = id then some ⟨id,lenient b64⟩ else none
  else none

def parseTrustedKeys (text : Text) : List Key := (text.splitOn '\n').filterMap (parseKey P)

inductive SumsVerdict where
  | ok (keyId : Text)
  | noKeys
  | unreadable
  | mismatch

def compact (sig : Text) : Text := sig.filter fun c => !isSpace c

def verifySumsSignature (sums sig : Text) (keys : List Key) : SumsVerdict :=
  if keys = [] then .noKeys
  else if !looksBase64 (compact sig) then .unreadable
  else if (lenient (compact sig)).length ≠ 64 then .unreadable
  else
    match keys.find? fun key => P.verify key.raw sums (lenient (compact sig)) with
    | some key => .ok key.id
    | none => .mismatch

def names (name : Text) (words : List Text) : Bool :=
  words[1]? = some ('.':: '/'::name) || words[1]? = some name

def findSumsEntry (sums name : Text) : Option Text :=
  match (sums.splitOn '\n').find? fun line => names name (jsWords line) with
  | none => none
  | some line =>
    let digest := ((jsWords line)[0]?).getD []
    if isDigest digest then some digest else none

def spanDigits (t : Text) : Text × Text := (t.takeWhile Char.isDigit,t.dropWhile Char.isDigit)

def dot (t : Text) : Option Text := if t.head? = some '.' then some t.tail else none

/-- `/^v?(\d+)\.(\d+)\.(\d+)/`, as numbers -/
def core (version : Text) : Option (Nat × Nat × Nat) := do
  let t := if version.head? = some 'v' then version.tail else version
  let (a,t) := spanDigits t
  let (b,t) := spanDigits (← dot t)
  let (c,_) := spanDigits (← dot t)
  if a = [] ∨ b = [] ∨ c = [] then none
  else some (VersionSort.value a,VersionSort.value b,VersionSort.value c)

def firstSignedRelease : Text := "0.4.7".toList

/-- `core(FIRST_SIGNED_RELEASE)` -/
def floor : Nat × Nat × Nat := (0,4,7)

def releaseRequiresSignature (version : Text) : Bool :=
  match core version with
  | none => false
  | some (a,b,c) =>
    if a ≠ floor.1 then a > floor.1
    else if b ≠ floor.2.1 then b > floor.2.1
    else if c ≠ floor.2.2 then c > floor.2.2
    else true

/-- `UNSIGNED_PINS` -/
def unsignedPins : List (Text × Text) :=
  [("377a62236a792df994e63c54fef38aca2ab76b38246fd4de33b913514f7a35d5".toList,
      "circuit-breaker_0.4.6_linux_amd64.tar.gz".toList),
    ("1c93f507cbac803da6dc6fd0ef3da62083ef87b09bcba3531b7bd61a1624c93f".toList,
      "circuit-breaker_0.4.6_linux_arm64.tar.gz".toList)]

def matchesUnsignedPin (sha256 name : Text) : Bool :=
  unsignedPins.any fun pin => pin.1 = sha256 && pin.2 = name

/-! ### Shell -/

/-- The separators of `read` and of awk's fields within a line. -/
def isBlank (c : Char) : Bool := c = ' ' || c = '\t'

/-- `[[:space:]]` -/
def isShellSpace (c : Char) : Bool := isBlank c || c = '\n' || c = '\x0b' || c = '\x0c' || c = '\r'

/-- A line of `cb_release_keys`: `base64 -d` reads the key twice. -/
def releaseKey (line : Text) : Option Key :=
  let line := dropCr line
  if line.all isShellSpace ∨ line.head? = some '#' then none
  else
    let keyId := ((words isBlank line)[0]?).getD []
    let key := ((words isBlank line)[1]?).getD []
    if isKeyId keyId then
      match strict key with
      | none => none
      | some raw => if raw.length = 32 ∧ (P.sha256 raw).take 16 = keyId then some ⟨keyId,raw⟩ else none
    else none

/-- `$(cat ...)` drops the newlines at the end of the text, and `<<<` adds one. -/
def cbReleaseKeys (text : Text) : List Key :=
  ((text.rdropWhile (· = '\n')).splitOn '\n').filterMap (releaseKey P)

/-- What `tr -d ' \t\r\n'` leaves. -/
def squeezed (sig : Text) : Text := sig.filter fun c => !(isBlank c || c = '\r' || c = '\n')

/-- The exit code of `cb_verify_sums_signature`, and the id that it prints. -/
def cbVerifySumsSignature (sums sig keysText : Text) : Nat × Option Text :=
  match strict (squeezed sig) with
  | none => (2,none)
  | some raw =>
    if raw.length ≠ 64 then (2,none)
    else if cbReleaseKeys P keysText = [] then (2,none)
    else
      match (cbReleaseKeys P keysText).find? fun key => P.verify key.raw sums raw with
      | some key => (0,some key.id)
      | none => (1,none)

/-- `sha256sum` marks a line whose path it has escaped. -/
def Tarball.escaped (b : Tarball) : Bool :=
  (b.dir ++ '/' :: b.name).any fun c => c = '\\' || c = '\n' || c = '\r'

/-- `sha256sum -- "$tarball" | cut -d' ' -f1` -/
def sumField (b : Tarball) : Text := if b.escaped then '\\'::P.sha256 b.content else P.sha256 b.content

/-- `$(basename -- "$tarball")` -/
def Tarball.basename (b : Tarball) : Text := b.name.rdropWhile (· = '\n')

/-- `$2 == "./" want || $2 == want`, of the fields of a line -/
def awkNames (A : Awk) (name : Text) (fields : List Text) : Bool :=
  let second := (fields[1]?).getD []
  decide (second = '.':: '/'::A.assign name) || A.equal second (A.assign name)

/-- The exit code of `cb_verify_sums_entry`. -/
def cbVerifySumsEntry (A : Awk) (sums : Text) (b : Tarball) : Nat :=
  match (sums.splitOn '\n').find? fun line => awkNames A b.basename (words isBlank line) with
  | none => 3
  | some line =>
    let expected := ((words isBlank line)[0]?).getD []
    if expected = [] then 3
    else if sumField P b = expected then 0
    else 1

/-- `${1#v}` -/
def withoutV (version : Text) : Text := if version.head? = some 'v' then version.tail else version

/-- Whether `cb_release_requires_signature` returns 0. -/
def cbReleaseRequiresSignature (collate : Text → Text → Bool) (version : Text) : Bool :=
  if withoutV version = [] then false
  else VersionSort.first collate firstSignedRelease (withoutV version) = firstSignedRelease

/-- `CB_UNSIGNED_PIN_AMD64` and `CB_UNSIGNED_PIN_ARM64` -/
def cbUnsignedPins : List Text :=
  ["377a62236a792df994e63c54fef38aca2ab76b38246fd4de33b913514f7a35d5  circuit-breaker_0.4.6_linux_amd64.tar.gz".toList,
    "1c93f507cbac803da6dc6fd0ef3da62083ef87b09bcba3531b7bd61a1624c93f  circuit-breaker_0.4.6_linux_arm64.tar.gz".toList]

/-- Whether `cb_bundle_matches_unsigned_pin` returns 0. -/
def cbBundleMatchesUnsignedPin (b : Tarball) : Bool :=
  cbUnsignedPins.any fun pin => sumField P b ++ ' ' :: ' ' :: b.basename = pin

end CircuitBreaker.ReleaseTrust
