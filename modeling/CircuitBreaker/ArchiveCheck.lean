import CircuitBreaker.JsonText
import CircuitBreaker.PyDict
import CircuitBreaker.TextWords
import Mathlib.Data.List.Sort

/-! The scan of a bundle's tar headers, which refuses what may lead out of the directory the bundle
is unpacked in. -/

namespace CircuitBreaker.ArchiveCheck

abbrev Text := List Char

/-- A JavaScript number: whole, or NaN. Sizes from 2^53 on are kept exact here; they exceed the
limits either way. -/
abbrev Number := Option Int

structure Limits where
  maxEntries : Nat
  maxTotalBytes : Nat

/-- `ARCHIVE_LIMITS` -/
def archiveLimits : Limits := ⟨200000,2*1024^3⟩

def fileTypes : List Char := ['0','\x00','7']
def paxKeys : List Text :=
  ["path","linkpath","size","mtime","atime","ctime","uid","gid","uname","gname"].map String.toList
def skipTypes : List Char := ['5']

/-- What JavaScript's `trim` drops. -/
def isSpace (c : Char) : Bool :=
  c.toNat ∈ [0x9,0xa,0xb,0xc,0xd,0x20,0xa0,0x1680,0x2028,0x2029,0x202f,0x205f,0x3000,0xfeff] ||
    (0x2000 ≤ c.toNat && c.toNat ≤ 0x200a)

def trim (t : Text) : Text := ((t.dropWhile isSpace).reverse.dropWhile isSpace).reverse

def subarray (buf : List UInt8) (start len : Nat) : List UInt8 := (buf.drop start).take len

-- What `toString('utf8')` makes of bytes.
variable (utf8 : List UInt8 → Text)

/-- `field`, of the bytes in question -/
def field (slice : List UInt8) : Text := utf8 (slice.takeWhile (· ≠ 0))

/-- `parseInt(text, 8)` of a trimmed text -/
def parseOctal (text : Text) : Number :=
  let unsigned := fun (digits : Text) =>
    let octal := digits.takeWhile fun c => '0' ≤ c && c ≤ '7'
    if octal = [] then none
    else some (octal.foldl (fun (n : Int) c => 8*n+(c.toNat- '0'.toNat : Nat)) 0)
  match text with
  | '-'::digits => (unsigned digits).map fun n => -n
  | '+'::digits => unsigned digits
  | digits => unsigned digits

/-- `number`, of the bytes in question -/
def number (slice : List UInt8) : Number :=
  match slice with
  | [] => some 0
  | b::rest =>
    if 128 ≤ b.toNat then
      some (rest.foldl (fun (n : Int) c => 256*n+c.toNat) (b.toNat-128 : Nat))
    else
      let text := trim (field utf8 slice)
      if text = [] then some 0 else parseOctal text

def checksum (header : List UInt8) : Nat :=
  ((header.take 148).map UInt8.toNat).sum+8*32+((header.drop 156).map UInt8.toNat).sum

def checksumOk (header : List UInt8) : Bool :=
  number utf8 (subarray header 148 8) = some (checksum header : Int)

def partsOf (path : Text) : List Text :=
  (path.splitOn '/').filter fun s => s ≠ [] && s ≠ ['.']

def dotdot : Text := ['.','.']

def splitName (name : Text) : Except Text (List Text) :=
  if name.head? = some '/' then .error ("absolute path ".toList++name)
  else
    let segments := partsOf name
    if dotdot ∈ segments then
      .error (name++" has a '..' segment and may resolve outside the bundle".toList)
    else .ok segments

def joined (segments : List Text) : Text := ['/'].intercalate segments

inductive LinkKind where
  | symlink | hardlink
  deriving DecidableEq

def LinkKind.text : LinkKind → Text
  | .symlink => "symlink".toList
  | .hardlink => "hardlink".toList

/-- The loop of `linkProblem`: where the target leads, or the problem on the way. -/
def followParts (kind : LinkKind) (name target : Text) (symlinks : List Text) :
    List Text → List Text → Except Text (List Text)
  | [],stack => .ok stack
  | part::rest,stack =>
    if part = dotdot ∧ stack = [] then
      .error (kind.text++ ' '::name++" points outside the bundle (".toList++target++[')'])
    else
      let stack := if part = dotdot then stack.dropLast else stack++[part]
      if rest ≠ [] ∧ joined stack ∈ symlinks then
        .error (kind.text++ ' '::name++" points through symlink ".toList++joined stack++
          " (".toList++target++[')'])
      else followParts kind name target symlinks rest stack

def linkProblem (kind : LinkKind) (name : Text) (segments : List Text) (target : Text)
    (symlinks : List Text) : Option Text :=
  if target = [] then some (kind.text++ ' '::name++" has no target".toList)
  else if target.head? = some '/' then
    some (kind.text++ ' '::name++" points at absolute ".toList++target)
  else
    let stack := if kind = .symlink then segments.dropLast else []
    match followParts kind name target symlinks (partsOf target) stack with
    | .error problem => some problem
    | .ok stack =>
      if kind = .hardlink ∧ joined stack ∈ symlinks then
        some (kind.text++ ' '::name++" targets symlink ".toList++joined stack)
      else none

/-! ### Pax records -/

def digitsOnly (t : Text) : Bool := t ≠ [] && t.all Char.isDigit

def decimalValue (t : Text) : Nat := t.foldl (fun n c => 10*n+(c.toNat- '0'.toNat)) 0

/-- `paxRecords` from an offset on; a key `__proto__` sets no property. -/
def paxRecordsFrom : Nat → List UInt8 → Dict Text Text → Option (Dict Text Text)
  | 0,_,out => some out
  | n+1,data,out =>
    if data = [] then some out
    else
      let lengthBytes := data.takeWhile (· ≠ 0x20)
      let lengthText := lengthBytes.map fun b => Char.ofNat b.toNat
      let space := lengthBytes.length
      let length := decimalValue lengthText
      if space = data.length then none
      else if !digitsOnly lengthText then none
      else if length ≤ space+1 ∨ data.length < length ∨ data[length-1]? ≠ some 0x0a then none
      else
        let record := utf8 (subarray data (space+1) (length-space-2))
        let key := record.takeWhile (· ≠ '=')
        if key = record ∨ key = [] then none
        else
          let value := record.drop (key.length+1)
          paxRecordsFrom n (data.drop length)
            (if key = "__proto__".toList then out else out.set key value)

def paxRecords (data : List UInt8) : Option (Dict Text Text) :=
  paxRecordsFrom utf8 data.length data .empty

def arrayIndex (key : Text) : Option Nat :=
  if digitsOnly key && (key = ['0'] || key.head? ≠ some '0') &&
      decimalValue key < 2^32-1 then some (decimalValue key)
  else none

/-- `Object.keys`: indices first, and in their order. -/
def objectKeys (records : Dict Text Text) : List Text :=
  ((records.keys.filterMap arrayIndex).insertionSort (· ≤ ·)).map (Nat.toDigits 10)++
    records.keys.filter fun key => (arrayIndex key).isNone

structure Pending where
  path : Option Text
  linkpath : Option Text
  size : Option Text

/-- What an extended header of kind `L`, `K` or `x` sets for the entry after it. -/
def extend (kind : Char) (pending : Pending) (data : List UInt8) : Except Text Pending :=
  if kind = 'L' then .ok { pending with path := some (field utf8 data) }
  else if kind = 'K' then .ok { pending with linkpath := some (field utf8 data) }
  else
    match paxRecords utf8 data with
    | none => .error "malformed pax extended header".toList
    | some records =>
      match (objectKeys records).find? fun key => key ∉ paxKeys with
      | some key => .error ("unsupported pax keyword ".toList++key)
      | none =>
        .ok
          { path := (records.get "path".toList).or pending.path
            linkpath := (records.get "linkpath".toList).or pending.linkpath
            size := (records.get "size".toList).or pending.size }

/-! ### The scanner -/

structure Collect where
  kind : Char
  remaining : Number
  chunks : List (List UInt8)
  pad : Number

structure Seen where
  name : Text
  segments : List Text

structure Link where
  kind : LinkKind
  name : Text
  segments : List Text
  target : Text

inductive Verdict where
  | ok (entries : Nat) (totalBytes : Number)
  | problem (reason : Text)
  deriving DecidableEq

structure Accepted where
  type : Char
  name : Text
  segments : List Text
  target : Text
  sizeField : List UInt8
  paxSize : Option Text
  deriving DecidableEq

def Accepted.size (e : Accepted) : Number :=
  match e.paxSize with
  | some text => some (decimalValue text : Int)
  | none => number utf8 e.sizeField

/-- The last three fields are kept for the statements and read by nothing: the entries accepted,
how many bytes were skipped after the header of each, and whether it is those that are skipped. -/
structure Scan where
  buffer : List UInt8
  skip : Number
  collect : Option Collect
  pending : Pending
  entries : Nat
  totalBytes : Number
  zeroBlocks : Nat
  symlinks : List Text
  seen : List Seen
  links : List Link
  verdict : Option Verdict
  accepted : List Accepted
  payloads : List Nat
  forEntry : Bool

def noPending : Pending := ⟨none,none,none⟩

def newScan : Scan := ⟨[],some 0,none,noPending,0,some 0,0,[],[],[],none,[],[],false⟩

/-- `finish` -/
def Scan.finish (s : Scan) (v : Verdict) : Scan := { s with verdict := s.verdict.or (some v) }

/-- `fail` -/
def Scan.fail (s : Scan) (reason : Text) : Scan := s.finish (.problem reason)

def writtenThrough (symlinks : List Text) (e : Seen) : Option Text :=
  (List.range' 1 (e.segments.length-1)).findSome? fun i =>
    if joined (e.segments.take i) ∈ symlinks then
      some (e.name++" is written through symlink ".toList++joined (e.segments.take i))
    else none

def crossCheck (symlinks : List Text) (seen : List Seen) (links : List Link) : Option Text :=
  (seen.findSome? (writtenThrough symlinks)).or
    (links.findSome? fun l => linkProblem l.kind l.name l.segments l.target symlinks)

/-- `value > 0` -/
def positive : Number → Bool
  | some n => 0 < n
  | none => false

/-- `(512 - (size % 512)) % 512` -/
def padding (size : Number) : Number := size.map fun n => (512-n.tmod 512).tmod 512

/-- `buffer.subarray(0, n)` and `buffer.subarray(n)` for `n = Math.min(remaining, buffer.length)`,
where a negative `n` counts from the end and NaN is nothing. -/
def cutRemaining (buffer : List UInt8) : Number → List UInt8 × List UInt8 × Number
  | none => ([],buffer,none)
  | some r =>
    let n := min r buffer.length
    let at_ := if n < 0 then (buffer.length+n).toNat else n.toNat
    (buffer.take at_,buffer.drop at_,some (r-n))

def Scan.note (s : Scan) (e : Accepted) : Scan :=
  { s with
    seen := s.seen++[⟨e.name,e.segments⟩]
    symlinks := if e.type = '2' then s.symlinks++[joined e.segments] else s.symlinks
    links := if e.type = '1' ∨ e.type = '2' then
        s.links++[⟨if e.type = '2' then .symlink else .hardlink,e.name,e.segments,e.target⟩]
      else s.links
    accepted := s.accepted++[e]
    payloads := s.payloads++[0] }

def credit (payloads : List Nat) (n : Nat) : List Nat :=
  payloads.dropLast++[payloads.getLastD 0+n]

variable (limits : Limits)

def enterEntry (s : Scan) (e : Accepted) : Scan × Bool :=
  let size := e.size utf8
  let s := { s.note e with forEntry := true }
  if e.type ∈ fileTypes then
    let total := s.totalBytes.bind fun n => size.map fun m => n+m
    if total.any fun (n : Int) => (limits.maxTotalBytes : Int) < n then
      (s.fail ("more than ".toList++Nat.toDigits 10 limits.maxTotalBytes++
        " bytes of content".toList),false)
    else
      ({ s with
        totalBytes := total
        skip := size.bind fun n => (padding size).map fun pad => n+pad },true)
  else ({ s with skip := some 0 },true)

def entryTurn (s : Scan) (header : List UInt8) (type : Char) : Scan × Bool :=
  if s.pending.size.isSome ∧ type ∉ fileTypes then
    (s.fail ("pax size on non-file entry type '".toList++type::"' is not supported".toList),false)
  else if (s.pending.size.map digitsOnly).getD true = false then
    (s.fail "malformed pax size".toList,false)
  else
    let paxSize := s.pending.size
    let ustarPrefix := field utf8 (subarray header 345 155)
    let plain := field utf8 (subarray header 0 100)
    let name := s.pending.path.getD (if ustarPrefix = [] then plain else ustarPrefix++ '/'::plain)
    let linkname := s.pending.linkpath.getD (field utf8 (subarray header 157 100))
    let s :=
      { s with
        pending := noPending
        entries := s.entries+1 }
    if limits.maxEntries < s.entries then
      (s.fail ("more than ".toList++Nat.toDigits 10 limits.maxEntries++" entries".toList),false)
    else
      match splitName name with
      | .error problem => (s.fail problem,false)
      | .ok segments =>
        if type ∉ fileTypes ∧ type ∉ skipTypes ∧ type ≠ '1' ∧ type ≠ '2' then
          (s.fail ("unsupported entry type '".toList++type::"' for ".toList++name),false)
        else
          enterEntry utf8 limits s ⟨type,name,segments,linkname,subarray header 124 12,paxSize⟩

/-- `String.fromCharCode(header[156] || 48)` -/
def typeOf (header : List UInt8) : Char :=
  let code := (header.getD 156 0).toNat
  Char.ofNat (if code = 0 then 48 else code)

def headerTurn (s : Scan) (header : List UInt8) : Scan × Bool :=
  if header.all (· = 0) then
    let s := { s with zeroBlocks := s.zeroBlocks+1 }
    if 2 ≤ s.zeroBlocks then
      match crossCheck s.symlinks s.seen s.links with
      | some problem => (s.fail problem,false)
      | none => (s.finish (.ok s.entries s.totalBytes),false)
    else (s,true)
  else
    let s := { s with zeroBlocks := 0 }
    if !checksumOk utf8 header then
      (s.fail "corrupt tar header (checksum mismatch)".toList,false)
    else
      let type := typeOf header
      let size := number utf8 (subarray header 124 12)
      if type = 'g' then (s.fail "global pax headers are not supported".toList,false)
      else if type = 'L' ∨ type = 'K' ∨ type = 'x' then
        if size.any fun (n : Int) => 1024*1024 < n then (s.fail "oversized extended header".toList,false)
        else ({ s with collect := some ⟨type,size,[],padding size⟩ },true)
      else entryTurn utf8 limits s header type

def collectTurn (s : Scan) (c : Collect) : Scan × Bool :=
  let (chunk,rest,remaining) := cutRemaining s.buffer c.remaining
  let c :=
    { c with
      chunks := c.chunks++[chunk]
      remaining := remaining }
  let s :=
    { s with
      buffer := rest
      collect := some c }
  if positive remaining then (s,false)
  else
    match extend utf8 c.kind s.pending c.chunks.flatten with
    | .error reason => (s.fail reason,false)
    | .ok pending =>
      ({ s with
        pending := pending
        skip := c.pad
        collect := none
        forEntry := false },true)

/-- One turn of `while (!done)`, and whether there is another. -/
def turn (s : Scan) : Scan × Bool :=
  if positive s.skip then
    let n := (min (s.skip.getD 0) s.buffer.length).toNat
    let s :=
      { s with
        skip := s.skip.map fun (k : Int) => k-n
        buffer := s.buffer.drop n
        payloads := if s.forEntry then credit s.payloads n else s.payloads }
    (s,!positive s.skip)
  else
    match s.collect with
    | some c => collectTurn utf8 s c
    | none =>
      if s.buffer.length < 512 then (s,false)
      else headerTurn utf8 limits { s with buffer := s.buffer.drop 512 } (s.buffer.take 512)

def spin : Nat → Scan → Scan
  | 0,s => s
  | n+1,s =>
    if s.verdict.isSome then s
    else
      match turn utf8 limits s with
      | (s,true) => spin n s
      | (s,false) => s

inductive Event where
  | data (chunk : List UInt8)
  | ended
  | error (code : Text)

/-- There are no more turns than these: a header takes 512 bytes, and at most the collecting and
the skipping come between two of them. -/
def onEvent (s : Scan) : Event → Scan
  | .data chunk =>
    let s := { s with buffer := s.buffer++chunk }
    spin utf8 limits (s.buffer.length+4) s
  | .ended => s.fail "archive ended before the end-of-archive marker".toList
  | .error code => s.fail ("not a valid gzip stream (".toList++code++[')'])

/-- `archiveScanner` over all that comes out of the inflater -/
def archiveScanner (events : List Event) : Scan := events.foldl (onEvent utf8 limits) newScan

/-! ### Headers -/

def latin1 (bytes : List UInt8) : Text := bytes.map fun b => Char.ofNat b.toNat

def bytesOf (text : Text) : List UInt8 := text.map fun c => UInt8.ofNat c.toNat

def filled (n : Nat) (bytes : List UInt8) : List UInt8 :=
  bytes++List.replicate (n-bytes.length) 0

def tarHeader (name size : Text) (type : Char) (link : Text) : List UInt8 :=
  let front := filled 100 (bytesOf name)++List.replicate 24 0++filled 12 (bytesOf size)++
    List.replicate 12 0
  let back := bytesOf [type]++filled 355 (bytesOf link)
  let sum := (front.map UInt8.toNat).sum+8*32+(back.map UInt8.toNat).sum
  front++filled 8 (bytesOf (Nat.toDigits 8 sum))++back

def endBlocks : List UInt8 := List.replicate 1024 0

end CircuitBreaker.ArchiveCheck
