import CircuitBreaker.DumpScanner

/-! A dump as lines and COPY blocks, and what the parser of the scan makes of it. -/

namespace CircuitBreaker.DumpScanner
open ByteLines ChunkedLines GzipStream List

structure Block where
  header : GzipStream.Bytes
  rows : List GzipStream.Bytes

inductive Item where
  | line (l : GzipStream.Bytes)
  | block (b : Block)

def Item.lines : Item → List GzipStream.Bytes
  | .line l => [l]
  | .block b => b.header::(b.rows++[ascii copyEnd])

def dumpLines (items : List Item) : List GzipStream.Bytes := items.flatMap Item.lines

def dumpText (ended : Bool) (items : List Item) : GzipStream.Bytes :=
  if ended then unlines (dumpLines items) else (unlines (dumpLines items)).dropLast

variable (wide : Char → Bool)

def Item.WellFormed : Item → Prop
  | .line l => newline ∉ l ∧ copyHeader wide (decode l) = none
  | .block b => newline ∉ b.header ∧ (copyHeader wide (decode b.header)).isSome ∧
      ∀ r ∈ b.rows, newline ∉ r ∧ decode r ≠ copyEnd

def Item.valuesOf (table column : Text) : Item → Option (List Text)
  | .line _ => none
  | .block b =>
    match copyHeader wide (decode b.header) with
    | none => none
    | some (written,columns) =>
      if lower written = table then
        match indexIn columns column with
        | none => some []
        | some index => some (b.rows.filterMap fun r => fieldAt index (decode r))
      else none

def firstValues (table column : Text) (items : List Item) : List Text :=
  (items.findSome? (Item.valuesOf wide table column)).getD []

def vaultKeyHash (items : List Item) : Option Text :=
  (firstValues wide appSettings "vault_key_hash".toList items).head?

def schemaRevisions (items : List Item) : List Text :=
  firstValues wide alembicVersion "version_num".toList items

/-! ### The header that pg_dump writes of a table -/

variable {columns : Text}

variable {column : Text}

/-! ### The parser over the items -/

variable {p : Parser}

attribute [local simp] Parser.consumeAll

theorem consumeAll_append {ls ms : List GzipStream.Bytes} (more : p.seenAll = false) :
    p.consumeAll wide (ls++ms) =
      if (p.consumeAll wide ls).seenAll then p.consumeAll wide ls
      else (p.consumeAll wide ls).consumeAll wide ms := by
  induction ls generalizing p with
  | nil => rw [Parser.consumeAll,more]; rfl
  | cons l ls ih =>
    rw [cons_append,Parser.consumeAll,Parser.consumeAll]
    by_cases all : (p.consume wide (decode l)).seenAll = true
    · rw [if_pos all,if_pos all,if_pos all]
    · rw [if_neg all,if_neg all]
      exact ih (Bool.not_eq_true _ ▸ all)

theorem consumeAll_single (p : Parser) (l : GzipStream.Bytes) :
    p.consumeAll wide [l] = p.consume wide (decode l) := by
  rw [Parser.consumeAll]
  split <;> rfl

def Parser.takes (p : Parser) (table : Text) (values : List Text) : Parser :=
  values.foldl (fun p value => p.value table value) p

theorem value_same (p : Parser) (table value : Text) :
    (p.value table value).copyTable = p.copyTable ∧ (p.value table value).copyIndex = p.copyIndex ∧
      (p.value table value).seenTables = p.seenTables := by
  unfold Parser.value
  split
  case isTrue => exact ⟨rfl,rfl,rfl⟩
  case isFalse => split <;> exact ⟨rfl,rfl,rfl⟩

theorem takes_same (values : List Text) (table : Text) : ∀ p : Parser,
    (p.takes table values).copyTable = p.copyTable ∧ (p.takes table values).copyIndex = p.copyIndex ∧
      (p.takes table values).seenTables = p.seenTables := by
  induction values with
  | nil => exact fun _ => ⟨rfl,rfl,rfl⟩
  | cons v vs ih =>
    intro p
    obtain ⟨copyTable,copyIndex,seen⟩ := ih (p.value table v)
    obtain ⟨copyTable',copyIndex',seen'⟩ := value_same p table v
    exact ⟨copyTable.trans copyTable',copyIndex.trans copyIndex',seen.trans seen'⟩

variable {table : Text}

theorem consumeAll_rows {rows : List GzipStream.Bytes} : ∀ {p : Parser},
    p.copyTable = some table → p.seenAll = false → (∀ r ∈ rows, decode r ≠ copyEnd) →
      p.consumeAll wide rows =
        p.takes table (rows.filterMap fun r => p.copyIndex.bind fun index => fieldAt index (decode r)) := by
  induction rows with
  | nil => exact fun _ _ _ => rfl
  | cons r rows ih =>
    intro p inside more plain
    have row : p.consume wide (decode r) =
        p.takes table (p.copyIndex.bind fun index => fieldAt index (decode r)).toList := by
      unfold Parser.consume
      rw [inside]
      show p.row table (decode r) = _
      unfold Parser.row
      rw [if_neg (plain r (by simp))]
      cases p.copyIndex with
      | none => rfl
      | some index =>
        rw [Option.bind_some]
        dsimp only
        cases fieldAt index (decode r) <;> rfl
    obtain ⟨copyTable,copyIndex,seen⟩ := takes_same
      (p.copyIndex.bind fun index => fieldAt index (decode r)).toList table p
    have more' : (p.consume wide (decode r)).seenAll = false := by
      rw [row]
      unfold Parser.seenAll at more ⊢
      rwa [seen]
    rw [Parser.consumeAll,if_neg (by simp [more']),row]
    rw [row] at more'
    rw [ih (copyTable.trans inside) more' fun q hq => plain q (mem_cons_of_mem _ hq),copyIndex]
    rw [Parser.takes,Parser.takes,Parser.takes,←foldl_append,filterMap_cons]
    cases (p.copyIndex.bind fun index => fieldAt index (decode r)) <;> rfl

structure Holds (p : Parser) (hashes revisions : List Text) : Prop where
  hash : p.vaultKeyHash = hashes.head?
  revisions : p.schemaRevisions = revisions

theorem wanted_app : wantedColumn appSettings = some "vault_key_hash".toList := rfl
theorem wanted_alembic : wantedColumn alembicVersion = some "version_num".toList := rfl

theorem tables_differ : alembicVersion ≠ appSettings := by decide

theorem Holds.value {hashes revisions : List Text} (h : Holds p hashes revisions)
    (table value : Text) :
    Holds (p.value table value) (if table = appSettings then hashes++[value] else hashes)
      (if table = alembicVersion then revisions++[value] else revisions) := by
  unfold Parser.value
  by_cases app : table = appSettings
  · have other : table ≠ alembicVersion := fun e => tables_differ (e.symm.trans app)
    rw [if_pos app,if_neg other,if_neg other]
    cases hashes with
    | nil =>
      rw [if_pos ⟨app,h.hash⟩]
      exact ⟨rfl,h.revisions⟩
    | cons x xs =>
      rw [if_neg fun no => nomatch no.2.symm.trans h.hash]
      exact ⟨h.hash,h.revisions⟩
  · rw [if_neg fun no => app no.1,if_neg app]
    by_cases alembic : table = alembicVersion
    · rw [if_pos alembic,if_pos alembic]
      exact ⟨h.hash,congrArg (·++[value]) h.revisions⟩
    · rw [if_neg alembic,if_neg alembic]
      exact h

theorem taken_on (c : Prop) [Decidable c] (a vs : List Text) (v : Text) :
    (if c then (if c then a++[v] else a)++vs else if c then a++[v] else a) = if c then a++v::vs else a := by
  by_cases h : c
  · simp only [if_pos h,append_assoc,singleton_append]
  · simp only [if_neg h]

theorem Holds.takes {values : List Text} : ∀ {p : Parser} {hashes revisions : List Text},
    Holds p hashes revisions →
      Holds (p.takes table values) (if table = appSettings then hashes++values else hashes)
        (if table = alembicVersion then revisions++values else revisions) := by
  induction values with intro p hashes revisions h
  | nil =>
    simpa [Parser.takes] using h
  | cons v vs ih =>
    have step := ih (h.value table v)
    rw [taken_on,taken_on] at step
    exact step

def Parser.added (p : Parser) (b : Block) (table : Text) (columns : Text) : List Text :=
  let index := if table ∈ p.seenTables then none else (wantedColumn table).bind (indexIn columns)
  b.rows.filterMap fun r => index.bind fun index => fieldAt index (decode r)

def Parser.seenAfter (p : Parser) (table : Text) : List Text :=
  if (wantedColumn table).isSome then p.seenTables.insert table else p.seenTables

theorem mem_seenAfter_old (written : Text) (seen : table ∈ p.seenTables) :
    table ∈ p.seenAfter written := by
  unfold Parser.seenAfter
  split
  case isTrue => exact mem_insert_of_mem seen
  case isFalse => exact seen

theorem mem_seenAfter_now (wanted : wantedColumn table = some column) :
    table ∈ p.seenAfter table := by
  unfold Parser.seenAfter
  rw [wanted]
  exact mem_insert_self

variable {written : Text}

theorem mem_seenAfter_other (other : written ≠ table)
    (unseen : table ∉ p.seenTables) : table ∉ p.seenAfter written := by
  unfold Parser.seenAfter
  split
  case isTrue =>
    intro now
    obtain eq | old := mem_insert_iff.1 now
    · exact other eq.symm
    · exact unseen old
  case isFalse => exact unseen

theorem decode_copyEnd : decode (ascii copyEnd) = copyEnd := by
  have narrow : ∀ c ∈ ['\\','.'], c.toNat < 128 := by simp
  exact decode_ascii narrow

theorem copyHeader_copyEnd : copyHeader wide copyEnd = none := rfl

theorem consumeAll_block {b : Block} {hashes revisions : List Text}
    (outside : p.copyTable = none) (more : p.seenAll = false)
    (header : copyHeader wide (decode b.header) = some (written,columns))
    (plain : ∀ r ∈ b.rows, decode r ≠ copyEnd) (holds : Holds p hashes revisions) :
    (p.consumeAll wide (Item.block b).lines).copyTable = none ∧
    (p.consumeAll wide (Item.block b).lines).seenTables = p.seenAfter (lower written) ∧
    Holds (p.consumeAll wide (Item.block b).lines)
      (if lower written = appSettings then hashes++p.added b (lower written) columns else hashes)
      (if lower written = alembicVersion then revisions++p.added b (lower written) columns
        else revisions) := by
  let inside : Parser :=
    { p with
      copyTable := some (lower written)
      copyIndex :=
        if lower written ∈ p.seenTables then none
        else (wantedColumn (lower written)).bind (indexIn columns) }
  have first : p.consume wide (decode b.header) = inside := by
    unfold Parser.consume
    rw [outside]
    show p.header wide (decode b.header) = inside
    unfold Parser.header
    rw [header]
  have more' : inside.seenAll = false := more
  have rows := consumeAll_rows wide (p := inside) rfl more' plain
  obtain ⟨copyTable,-,seen⟩ := takes_same (p.added b (lower written) columns) (lower written) inside
  have through : inside.consumeAll wide b.rows = inside.takes (lower written) (p.added b (lower written) columns) :=
    rows
  have taken : Holds (inside.takes (lower written) (p.added b (lower written) columns)) _ _ :=
    Holds.takes ⟨holds.hash,holds.revisions⟩
  have more'' : (inside.consumeAll wide b.rows).seenAll = false := by
    rw [through]
    unfold Parser.seenAll at more' ⊢
    rwa [seen]
  have last : p.consumeAll wide (Item.block b).lines =
      (inside.consumeAll wide b.rows).row (lower written) copyEnd := by
    show p.consumeAll wide (b.header::(b.rows++[ascii copyEnd])) = _
    rw [Parser.consumeAll,first,if_neg (by simp [more']),consumeAll_append wide more',
      if_neg (by simp [more'']),consumeAll_single,decode_copyEnd]
    unfold Parser.consume
    rw [through,copyTable]
  rw [last,through]
  unfold Parser.row
  rw [if_pos rfl,seen]
  exact ⟨rfl,rfl,⟨taken.hash,taken.revisions⟩⟩

def gathered (seen : List Text) (got : List Text) (table column : Text) (items : List Item) : List Text :=
  if table ∈ seen then got else firstValues wide table column items

theorem firstValues_other {b : Block} (items : List Item)
    (header : copyHeader wide (decode b.header) = some (written,columns)) (other : lower written ≠ table) :
    firstValues wide table column (.block b::items) = firstValues wide table column items := by
  have skipped : Item.valuesOf wide table column (.block b) = none := by
    unfold Item.valuesOf
    dsimp only
    rw [header]
    exact if_neg other
  unfold firstValues
  rw [findSome?_cons,skipped]

theorem firstValues_named {b : Block} (items : List Item)
    (header : copyHeader wide (decode b.header) = some (written,columns)) (same : lower written = table) :
    firstValues wide table column (.block b::items) =
      b.rows.filterMap fun r => (indexIn columns column).bind fun index => fieldAt index (decode r) := by
  have found : Item.valuesOf wide table column (.block b) =
      some (b.rows.filterMap fun r => (indexIn columns column).bind fun index => fieldAt index (decode r)) := by
    unfold Item.valuesOf
    dsimp only
    rw [header]
    dsimp only
    rw [if_pos same]
    cases indexIn columns column with
    | none => exact congrArg some (filterMap_eq_nil_iff.2 fun _ _ => rfl).symm
    | some index => rfl
  unfold firstValues
  rw [findSome?_cons,found]
  rfl

variable {items : List Item}

theorem gathered_block {b : Block} {got : List Text} (wanted : wantedColumn table = some column)
    (header : copyHeader wide (decode b.header) = some (written,columns))
    (nothing : table ∉ p.seenTables → got = []) :
    gathered wide (p.seenAfter (lower written))
        (if lower written = table then got++p.added b (lower written) columns else got) table column items =
      gathered wide p.seenTables got table column (.block b::items) := by
  unfold gathered
  by_cases seen : table ∈ p.seenTables
  · have still := mem_seenAfter_old (lower written) seen
    rw [if_pos seen,if_pos still]
    by_cases same : lower written = table
    · have none : p.added b (lower written) columns = [] := by
        unfold Parser.added
        rw [same,if_pos seen]
        exact filterMap_eq_nil_iff.2 fun _ _ => rfl
      rw [if_pos same,none,append_nil]
    · rw [if_neg same]
  · rw [if_neg seen,nothing seen]
    by_cases same : lower written = table
    · have now : table ∈ p.seenAfter (lower written) := by
        rw [same]
        exact mem_seenAfter_now wanted
      rw [if_pos now,if_pos same,nil_append,firstValues_named wide items header same]
      unfold Parser.added
      rw [same,if_neg seen,wanted]
      rfl
    · have not_ := mem_seenAfter_other same seen
      rw [if_neg not_,firstValues_other wide items header same]

theorem nothing_after {got added : List Text}
    (wanted : wantedColumn table = some column) (nothing : table ∉ p.seenTables → got = [])
    (unseen : table ∉ p.seenAfter written) : (if written = table then got++added else got) = [] := by
  by_cases same : written = table
  · rw [same] at unseen
    exact absurd (mem_seenAfter_now wanted) unseen
  · rw [if_neg same]
    exact nothing fun seen => unseen (mem_seenAfter_old written seen)

structure Between (p : Parser) (hashes revisions : List Text) : Prop where
  outside : p.copyTable = none
  holds : Holds p hashes revisions
  noHash : appSettings ∉ p.seenTables → hashes = []
  noRevision : alembicVersion ∉ p.seenTables → revisions = []

theorem Between.start : Between {} [] [] :=
  ⟨rfl,⟨rfl,rfl⟩,fun _ => rfl,fun _ => rfl⟩

theorem seenAll_iff (p : Parser) :
    p.seenAll = true ↔ appSettings ∈ p.seenTables ∧ alembicVersion ∈ p.seenTables := by
  simp [Parser.seenAll]

theorem Between.consumeAll : ∀ {p : Parser} {hashes revisions : List Text},
    Between p hashes revisions → p.seenAll = false → (∀ item ∈ items, item.WellFormed wide) →
      (p.consumeAll wide (dumpLines items)).copyTable = none ∧
      Holds (p.consumeAll wide (dumpLines items))
        (gathered wide p.seenTables hashes appSettings "vault_key_hash".toList items)
        (gathered wide p.seenTables revisions alembicVersion "version_num".toList items) := by
  induction items with
  | nil =>
    intro p hashes revisions h _ _
    refine ⟨h.outside,?_⟩
    have hash : gathered wide p.seenTables hashes appSettings "vault_key_hash".toList [] = hashes := by
      unfold gathered
      split
      case isTrue => rfl
      case isFalse unseen => exact (h.noHash unseen).symm
    have revision :
        gathered wide p.seenTables revisions alembicVersion "version_num".toList [] = revisions := by
      unfold gathered
      split
      case isTrue => rfl
      case isFalse unseen => exact (h.noRevision unseen).symm
    rw [hash,revision]
    exact h.holds
  | cons item items ih =>
    intro p hashes revisions h more all
    have rest : ∀ i ∈ items, i.WellFormed wide := fun i hi => all i (mem_cons_of_mem _ hi)
    have lines : dumpLines (item::items) = item.lines++dumpLines items := rfl
    rw [lines,consumeAll_append wide more]
    cases item with
    | line l =>
      have plain : p.consumeAll wide (Item.line l).lines = p := by
        show p.consumeAll wide [l] = p
        rw [consumeAll_single]
        unfold Parser.consume
        rw [h.outside]
        show p.header wide (decode l) = p
        unfold Parser.header
        rw [(all (.line l) (by simp)).2]
      rw [plain,if_neg (by simp [more])]
      exact ih h more rest
    | block b =>
      obtain ⟨-,some_,rows⟩ := all (.block b) (by simp)
      obtain ⟨⟨written,columns⟩,header⟩ := Option.isSome_iff_exists.1 some_
      obtain ⟨outside,seen,holds⟩ :=
        consumeAll_block wide h.outside more header (fun r hr => (rows r hr).2) h.holds
      have hash : _ = gathered wide p.seenTables hashes appSettings _ (.block b::items) :=
        gathered_block wide wanted_app header h.noHash
      have revision : _ = gathered wide p.seenTables revisions alembicVersion _ (.block b::items) :=
        gathered_block wide wanted_alembic header h.noRevision
      rw [←hash,←revision,←seen]
      split
      case isTrue full =>
        obtain ⟨app,alembic⟩ := (seenAll_iff _).1 full
        refine ⟨outside,?_⟩
        unfold gathered
        rw [if_pos app,if_pos alembic]
        exact holds
      case isFalse open_ =>
        refine ih ⟨outside,holds,fun unseen => ?_,fun unseen => ?_⟩ (Bool.not_eq_true _ ▸ open_) rest
        · rw [seen] at unseen
          exact nothing_after wanted_app h.noHash unseen
        · rw [seen] at unseen
          exact nothing_after wanted_alembic h.noRevision unseen

theorem Holds.consume_end {hashes revisions : List Text}
    (h : Holds (p.consume wide copyEnd) hashes revisions) : Holds p hashes revisions := by
  unfold Parser.consume at h
  cases inside : p.copyTable with rw [inside] at h
  | none =>
    have same : p.header wide copyEnd = p := by
      unfold Parser.header
      rw [copyHeader_copyEnd]
    rwa [same] at h
  | some table =>
    have h : Holds (p.row table copyEnd) hashes revisions := h
    unfold Parser.row at h
    rw [if_pos rfl] at h
    exact ⟨h.hash,h.revisions⟩

def linesOf (ended : Bool) (items : List Item) : List GzipStream.Bytes :=
  if ended then dumpLines items else (dumpLines items).dropLast

theorem parsed (ended : Bool) {items : List Item} (all : ∀ item ∈ items, item.WellFormed wide) :
    Holds (Parser.consumeAll wide {} (linesOf ended items))
      (firstValues wide appSettings "vault_key_hash".toList items)
      (firstValues wide alembicVersion "version_num".toList items) := by
  have whole := (Between.consumeAll wide Between.start rfl all).2
  unfold linesOf
  cases ended with
  | true => exact whole
  | false =>
    rw [if_neg Bool.false_ne_true]
    obtain rfl | ⟨front,last,rfl⟩ := eq_nil_or_concat items
    · exact whole
    have lines : dumpLines (front++[last]) = dumpLines front++last.lines := by
      simp [dumpLines]
    rw [concat_eq_append] at whole all ⊢
    rw [lines] at whole ⊢
    cases last with
    | line l =>
      have before := (Between.consumeAll wide Between.start rfl
        fun i hi => all i (mem_append_left _ hi)).1
      have plain : copyHeader wide (decode l) = none := (all (.line l) (by simp)).2
      have start : dumpLines front++(Item.line l).lines = dumpLines front++[l] := rfl
      rw [start,dropLast_concat]
      rw [start,consumeAll_append wide rfl] at whole
      split at whole
      case isTrue => exact whole
      case isFalse =>
        rw [consumeAll_single] at whole
        have same : (Parser.consumeAll wide {} (dumpLines front)).consume wide (decode l) =
            Parser.consumeAll wide {} (dumpLines front) := by
          unfold Parser.consume
          rw [before]
          show Parser.header wide _ (decode l) = _
          unfold Parser.header
          rw [plain]
        rwa [same] at whole
    | block b =>
      have start : dumpLines front++(Item.block b).lines =
          (dumpLines front++b.header::b.rows)++[ascii copyEnd] := by
        simp [Item.lines]
      rw [start,dropLast_concat]
      rw [start,consumeAll_append wide rfl] at whole
      split at whole
      case isTrue => exact whole
      case isFalse =>
        rw [consumeAll_single,decode_copyEnd] at whole
        exact whole.consume_end

theorem lines_plain (all : ∀ item ∈ items, item.WellFormed wide) :
    ∀ l ∈ dumpLines items, newline ∉ l := by
  intro l hl
  obtain ⟨item,hi,hl⟩ := mem_flatMap.1 hl
  have formed := all item hi
  cases item with
  | line k =>
    obtain rfl := mem_singleton.1 hl
    exact formed.1
  | block b =>
    obtain ⟨header,-,rows⟩ := formed
    obtain rfl | hl := mem_cons.1 hl
    · exact header
    obtain hl | hl := mem_append.1 hl
    · exact (rows l hl).1
    · obtain rfl := mem_singleton.1 hl
      decide

theorem cutLines_dumpText (ended : Bool)
    (all : ∀ item ∈ items, item.WellFormed wide) :
    (cutLines (dumpText ended items)).1 = linesOf ended items := by
  have plain := lines_plain wide all
  unfold dumpText linesOf
  cases ended with
  | true =>
    have cut := cutLines_unlines [] plain
    rw [append_nil] at cut
    rw [if_pos rfl,if_pos rfl,cut]
    exact append_nil _
  | false =>
    rw [if_neg Bool.false_ne_true,if_neg Bool.false_ne_true]
    obtain none | ⟨front,last,some_⟩ := eq_nil_or_concat (dumpLines items)
    · rw [none]
      rfl
    rw [concat_eq_append] at some_
    rw [some_] at plain ⊢
    have text : (unlines (front++[last])).dropLast = unlines front++last := by
      rw [unlines_append,unlines_singleton,←append_assoc,dropLast_concat]
    rw [text,cutLines_unlines last fun l hl => plain l (mem_append_left _ hl),
      cutLines_plain (plain last (by simp)),dropLast_concat]
    exact append_nil _

end CircuitBreaker.DumpScanner
