import CircuitBreaker.ChunkedLines
import CircuitBreaker.GzipStream
import CircuitBreaker.TextWords
import Mathlib.Data.List.Infix

/-! The scan of a backup's database dump (`_DumpScanner` of services/backup/verify.py): it streams past in
compressed blocks, and two columns of its COPY blocks are read on the way. -/

namespace CircuitBreaker.DumpScanner
open ByteLines ChunkedLines GzipStream

abbrev Text := List Char

def inflateChunk : Nat := 4*1024*1024
def dumpHeader : GzipStream.Bytes := ascii "-- PostgreSQL database dump".toList
def dumpTrailer : GzipStream.Bytes := ascii "-- PostgreSQL database dump complete".toList
def dumpHeadWindow : Nat := 1024
def dumpTailWindow : Nat := 4096

def copyEnd : Text := ['\\','.']
def sqlNull : Text := ['\\','N']

def appSettings : Text := "app_settings".toList
def alembicVersion : Text := "alembic_version".toList

/-- `_WANTED_COLUMNS` -/
def wantedColumn (table : Text) : Option Text :=
  if table = appSettings then some "vault_key_hash".toList
  else if table = alembicVersion then some "version_num".toList
  else none

/-! ### The pattern of a COPY header. Each of its parts takes all it can: none can begin with what the one
before it has left. -/

/-- `\s`, and what `strip` drops -/
def isSpace (c : Char) : Bool :=
  c.toNat ∈ [0x9,0xa,0xb,0xc,0xd,0x1c,0x1d,0x1e,0x1f,0x20,0x85,0xa0,0x1680,0x2028,0x2029,0x202f,0x205f,0x3000]
    || (0x2000 ≤ c.toNat && c.toNat ≤ 0x200a)

-- The letters and digits beyond ASCII.
variable (wide : Char → Bool)

/-- `\w` -/
def isWord (c : Char) : Bool := c.isAlphanum || c = '_' || (128 ≤ c.toNat && wide c)

/-- Whether a letter of the pattern matches, case ignored; two letters have partners beyond ASCII. -/
def sameLetter (p c : Char) : Bool :=
  c.toLower = p || (p = 's' && c.toNat = 0x17f) || (p = 'i' && (c.toNat = 0x130 || c.toNat = 0x131))

def eat : Text → Text → Option Text
  | [],t => some t
  | p::ps,c::t => if sameLetter p c then eat ps t else none
  | _::_,[] => none

/-- `\s+` -/
def spaces (t : Text) : Option Text := if t.head?.any isSpace then some (t.dropWhile isSpace) else none

/-- `"?` -/
def quote (t : Text) : Text := if t.head? = some '"' then t.tail else t

/-- `"?(\w+)"?` -/
def name (t : Text) : Option (Text × Text) :=
  let word := (quote t).takeWhile (isWord wide)
  if word = [] then none else some (word,quote ((quote t).dropWhile (isWord wide)))

/-- `(?:"?\w+"?\.)?` -/
def schema (t : Text) : Text :=
  match name wide t with
  | some (_,rest) => if rest.head? = some '.' then rest.tail else t
  | none => t

/-- `_COPY_HEADER`, with its groups -/
def copyHeader (line : Text) : Option (Text × Text) := do
  let t ← eat "copy".toList line
  let t ← spaces t
  let (table,t) ← name wide (schema wide t)
  let t ← eat ['('] (t.dropWhile isSpace)
  let columns := t.takeWhile (· ≠ ')')
  let t ← eat [')'] (t.dropWhile (· ≠ ')'))
  let t ← spaces t
  let t ← eat "from".toList t
  let t ← spaces t
  let _ ← eat "stdin;".toList t
  some (table,columns)

/-- `lower`, as far as the two wanted names can tell. -/
def lower (table : Text) : Text := table.map Char.toLower

def trim (drop : Char → Bool) (t : Text) : Text := ((t.dropWhile drop).reverse.dropWhile drop).reverse

def columnNames (columns : Text) : List Text :=
  (columns.splitOn ',').map fun column => trim (· = '"') (trim isSpace column)

def fieldAt (index : Nat) (line : Text) : Option Text :=
  let value := ((line.splitOn '\t')[index]?).getD sqlNull
  if value = sqlNull then none else some value

/-! ### Lines -/

structure Parser where
  copyTable : Option Text := none
  copyIndex : Option Nat := none
  seenTables : List Text := []
  vaultKeyHash : Option Text := none
  schemaRevisions : List Text := []

/-- `_seen_tables >= set(_WANTED_COLUMNS)` -/
def Parser.seenAll (p : Parser) : Bool := appSettings ∈ p.seenTables && alembicVersion ∈ p.seenTables

def indexIn (columns : Text) (column : Text) : Option Nat :=
  if column ∈ columnNames columns then some ((columnNames columns).idxOf column) else none

/-- `_consume` outside a block -/
def Parser.header (p : Parser) (line : Text) : Parser :=
  match copyHeader wide line with
  | none => p
  | some (table,columns) =>
    { p with
      copyTable := some (lower table)
      copyIndex :=
        if lower table ∈ p.seenTables then none
        else (wantedColumn (lower table)).bind (indexIn columns) }

def Parser.value (p : Parser) (table value : Text) : Parser :=
  if table = appSettings ∧ p.vaultKeyHash = none then { p with vaultKeyHash := some value }
  else if table = alembicVersion then { p with schemaRevisions := p.schemaRevisions ++ [value] }
  else p

/-- `_consume` in a block of a table -/
def Parser.row (p : Parser) (table line : Text) : Parser :=
  if line = copyEnd then
    { p with
      copyTable := none
      seenTables :=
        if (wantedColumn table).isSome then p.seenTables.insert table else p.seenTables }
  else
    match p.copyIndex with
    | none => p
    | some index =>
      match fieldAt index line with
      | none => p
      | some value => p.value table value

def Parser.consume (p : Parser) (line : Text) : Parser :=
  match p.copyTable with
  | none => p.header wide line
  | some table => p.row table line

/-- The loop of `_absorb`, which is left once both tables are seen. -/
def Parser.consumeAll : Parser → List GzipStream.Bytes → Parser
  | p,[] => p
  | p,line::lines =>
    if (p.consume wide (decode line)).seenAll then p.consume wide (decode line)
    else (p.consume wide (decode line)).consumeAll lines

/-! ### The stream -/

variable {σ : Type}

structure Scanner (σ : Type) where
  inflate : σ
  pending : GzipStream.Bytes := []
  parsing : Bool := true
  parser : Parser := {}
  head : GzipStream.Bytes := []
  tail : GzipStream.Bytes := []
  inflatedBytes : Nat := 0
  streamError : Option String := none

/-- What `_absorb` makes of the lines. -/
def Scanner.readLines (s : Scanner σ) (out : GzipStream.Bytes) : Scanner σ :=
  let parser := s.parser.consumeAll wide (cutLines (s.pending++out)).1
  if parser.seenAll then { s with parser := parser, parsing := false, pending := [] }
  else { s with parser := parser, pending := (cutLines (s.pending++out)).2 }

def Scanner.absorb (s : Scanner σ) (out : GzipStream.Bytes) : Scanner σ :=
  if out = [] then s
  else
    let s := { s with
      inflatedBytes := s.inflatedBytes+out.length
      head := grow dumpHeadWindow s.head out
      tail := lastBytes dumpTailWindow (s.tail++out) }
    if s.parsing then s.readLines wide out else s

/-- The loop of `feed`, where `fuel` bounds its rounds. -/
def feedFrom (z : Decompressor σ) : Nat → Scanner σ → GzipStream.Bytes → Option (Scanner σ)
  | _,s,[] => some s
  | 0,_,_::_ => none
  | fuel+1,s,b::bs =>
    -- zeros behind the last member are padding
    if z.eof s.inflate ∧ (b::bs).all (· = 0) then some s
    else
      let inflate := if z.eof s.inflate then z.fresh else s.inflate
      match z.decompress inflate (b::bs) inflateChunk with
      | .error e => some { s with inflate := inflate, streamError := some e }
      | .ok taken =>
        feedFrom z fuel (Scanner.absorb wide { s with inflate := taken.state } taken.out) (z.next taken)

def feed (z : Decompressor σ) (fuel : Nat) (s : Scanner σ) (block : GzipStream.Bytes) : Option (Scanner σ) :=
  if s.streamError.isSome then some s else feedFrom wide z fuel s block

def finish (z : Decompressor σ) (s : Scanner σ) : Scanner σ :=
  if s.streamError.isNone ∧ z.eof s.inflate = false then
    { s with streamError := some "the compressed stream ends before its end-of-stream marker" }
  else s

def feedAll (z : Decompressor σ) (fuel : Nat) (s : Scanner σ) :
    List GzipStream.Bytes → Option (Scanner σ)
  | [] => some s
  | block::blocks => (feed wide z fuel s block).bind fun s => feedAll z fuel s blocks

/-- A scan of blocks, from a new scanner to `finish`. -/
def scan (z : Decompressor σ) (fuel : Nat) (blocks : List GzipStream.Bytes) : Option (Scanner σ) :=
  (feedAll wide z fuel { inflate := z.fresh } blocks).map (finish z)

def Scanner.isTruncatedDump (s : Scanner σ) : Bool :=
  decide (dumpHeader <:+: s.head) && !decide (dumpTrailer <:+: s.tail)

end CircuitBreaker.DumpScanner
