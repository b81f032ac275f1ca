import CircuitBreaker.ArchiveTurns
import CircuitBreaker.PathWalk

/-! What a scan without a problem says of unpacking the entries it accepted. -/

namespace CircuitBreaker.ArchiveCheck

open PathWalk Relation List

def component (part : Text) : Comp Text := if part = dotdot then .up else .down part

def targetOf (target : Text) : Target Text :=
  ⟨target.head? = some '/',(partsOf target).map component⟩

def entryKind (type : Char) : Kind :=
  if type = '2' then .symlink
  else if type = '1' then .hardlink
  else if type = '5' then .dir
  else .file

def Accepted.entry (e : Accepted) : Entry Text := ⟨entryKind e.type,e.segments,targetOf e.target⟩

def Linked (symlinks : List Text) (path : List Text) : Prop := path ≠ [] ∧ joined path ∈ symlinks

/-! ### The checks of names and targets -/

theorem confined_downs {linked : List Text → Prop} {s path : List Text}
    (h : ∀ i,1 ≤ i → i < path.length → ¬linked (s++path.take i)) :
    Confined linked s (downs path) := by
  induction path generalizing s with
  | nil => trivial
  | cons n path ih =>
    refine ⟨fun more => ?_,ih fun i hi hl => ?_⟩
    · cases path with
      | nil => exact absurd rfl more
      | cons m path => simpa using h 1 (Nat.le_refl 1) (by simp)
    · simpa using h (i+1) (by omega) (by simpa using hl)

theorem seen_confined {symlinks : List Text} {e : Seen} (h : writtenThrough symlinks e = none) :
    Confined (Linked symlinks) [] (downs e.segments) := by
  refine confined_downs fun i hi hl linked => ?_
  have outside := findSome?_eq_none_iff.1 h i (mem_range'_1.2 ⟨hi,by omega⟩)
  have inside : joined (e.segments.take i) ∈ symlinks := linked.2
  simp [inside] at outside

theorem follow_confined {kind : LinkKind} {name target : Text} {symlinks : List Text}
    {parts stack ends : List Text}
    (h : followParts kind name target symlinks parts stack = .ok ends) :
    Confined (Linked symlinks) stack (parts.map component) ∧
      landing stack (parts.map component) = ends := by
  induction parts generalizing stack with
  | nil => exact ⟨trivial,Except.ok.inj h⟩
  | cons part rest ih =>
    unfold followParts at h
    split at h
    case isTrue => cases h
    case isFalse inside =>
      by_cases hp : part = dotdot
      · simp only [hp,if_true] at h
        split at h
        case isTrue => cases h
        case isFalse clear =>
          obtain ⟨confined,lands⟩ := ih h
          simp only [map_cons,component,hp,if_true]
          refine ⟨⟨fun eq => inside ⟨hp,eq⟩,fun more linked => ?_,confined⟩,lands⟩
          exact clear ⟨fun eq => more (by simp [eq]),linked.2⟩
      · simp only [hp,if_false] at h
        split at h
        case isTrue => cases h
        case isFalse clear =>
          obtain ⟨confined,lands⟩ := ih h
          simp only [map_cons,component,hp,if_false]
          refine ⟨⟨fun more linked => ?_,confined⟩,lands⟩
          exact clear ⟨fun eq => more (by simp [eq]),linked.2⟩

theorem link_confined {l : Link} {symlinks : List Text}
    (h : linkProblem l.kind l.name l.segments l.target symlinks = none) :
    (targetOf l.target).absolute = false ∧
    Confined (Linked symlinks) (if l.kind = .symlink then l.segments.dropLast else [])
      (targetOf l.target).comps ∧
    (l.kind = .hardlink → ¬Linked symlinks (landing [] (targetOf l.target).comps)) := by
  unfold linkProblem at h
  split at h
  case isTrue => cases h
  case isFalse =>
    split at h
    case isTrue => cases h
    case isFalse relative =>
      simp only at h
      split at h
      case h_1 => cases h
      case h_2 ends followed =>
        split at h
        case isTrue => cases h
        case isFalse plain =>
          obtain ⟨confined,lands⟩ := follow_confined followed
          refine ⟨decide_eq_false relative,confined,fun hard linked => ?_⟩
          rw [hard] at lands
          exact plain ⟨hard,lands ▸ linked.2⟩

/-! ### What the scan keeps of an entry -/

structure Noted (s : Scan) : Prop where
  seen : ∀ e ∈ s.accepted,⟨e.name,e.segments⟩ ∈ s.seen
  symlinks : ∀ e ∈ s.accepted,e.type = '2' → joined e.segments ∈ s.symlinks
  links : ∀ e ∈ s.accepted,e.type = '1' ∨ e.type = '2' →
    ⟨if e.type = '2' then .symlink else .hardlink,e.name,e.segments,e.target⟩ ∈ s.links

theorem Noted.same {s t : Scan} (h : Noted s) (books : SameBooks s t) : Noted t := by
  obtain ⟨-,-,symlinks,seen,links,accepted⟩ := books
  constructor
  case seen =>
    rw [accepted,seen]
    exact h.seen
  case symlinks =>
    rw [accepted,symlinks]
    exact h.symlinks
  case links =>
    rw [accepted,links]
    exact h.links

theorem Noted.note {s : Scan} (h : Noted s) (e : Accepted) : Noted (s.note e) := by
  constructor
  case seen =>
    intro a ha
    rcases mem_append.1 ha with ha | ha
    · exact mem_append_left _ (h.seen a ha)
    · rw [mem_singleton.1 ha]
      exact mem_append_right _ (mem_singleton_self _)
  case symlinks =>
    intro a ha two
    unfold Scan.note
    rcases mem_append.1 ha with ha | ha
    · have old := h.symlinks a ha two
      simp only
      split
      case isTrue => exact mem_append_left _ old
      case isFalse => exact old
    · obtain rfl := mem_singleton.1 ha
      simp only [two,if_true]
      exact mem_append_right _ (mem_singleton_self _)
  case links =>
    intro a ha link
    unfold Scan.note
    rcases mem_append.1 ha with ha | ha
    · have old := h.links a ha link
      simp only
      split
      case isTrue => exact mem_append_left _ old
      case isFalse => exact old
    · obtain rfl := mem_singleton.1 ha
      simp only [link,if_true]
      exact mem_append_right _ (mem_singleton_self _)

theorem scanner_noted {utf8 : List UInt8 → Text} {limits : Limits} {events : List Event}
    {n : Nat} {total : Number}
    (ok : (archiveScanner utf8 limits events).verdict = some (.ok n total)) :
    let s := archiveScanner utf8 limits events
    Noted s ∧ crossCheck s.symlinks s.seen s.links = none := by
  refine @scanner_rule utf8 limits Noted (fun s =>
    Noted s ∧ crossCheck s.symlinks s.seen s.links = none) ⟨nofun,nofun,nofun⟩
    (fun s buffer h => h.same ⟨rfl,rfl,rfl,rfl,rfl,rfl⟩)
    (fun s buffer h => ⟨h.1.same ⟨rfl,rfl,rfl,rfl,rfl,rfl⟩,h.2⟩) (fun s t _ h turned => ?_) events n
    total ok
  cases turned with
  | skipped k n skip pos few books going | read idle books going =>
    exact ⟨fun _ => h.same books,fun _ _ ok => by simp [going] at ok⟩
  | entered e idle books going =>
    have noted := h.note e
    refine ⟨fun _ => ⟨?_,?_,?_⟩,fun _ _ ok => by simp [going] at ok⟩
    · rw [books.accepted,books.seen]
      exact noted.seen
    · rw [books.accepted,books.symlinks]
      exact noted.symlinks
    · rw [books.accepted,books.links]
      exact noted.links
  | refused reason verdict => exact ⟨fun none => by simp [verdict] at none,fun _ _ ok => by
      simp [verdict] at ok⟩
  | confirmed idle books checked verdict =>
    refine ⟨fun none => by simp [verdict] at none,fun _ _ _ => ⟨h.same books,?_⟩⟩
    rw [books.symlinks,books.seen,books.links]
    exact checked

theorem accepted_checked {s : Scan} (noted : Noted s)
    (h : crossCheck s.symlinks s.seen s.links = none) :
    Checked (Linked s.symlinks) (s.accepted.map Accepted.entry) := by
  obtain ⟨written,linked⟩ := Option.or_eq_none_iff.1 h
  have links := findSome?_eq_none_iff.1 linked
  constructor
  case top => exact fun h => h.1 rfl
  case paths =>
    intro entry hm
    obtain ⟨e,he,rfl⟩ := mem_map.1 hm
    exact seen_confined (findSome?_eq_none_iff.1 written _ (noted.seen e he))
  case symlinks =>
    intro entry hm kind
    obtain ⟨e,he,rfl⟩ := mem_map.1 hm
    have two : e.type = '2' := by
      by_contra other
      simp only [Accepted.entry,entryKind,other,if_false] at kind
      split at kind
      case isTrue => cases kind
      case isFalse =>
        split at kind
        case isTrue => cases kind
        case isFalse => cases kind
    have link := links _ (noted.links e he (.inr two))
    simp only [two,if_true] at link
    obtain ⟨relative,confined,-⟩ := @link_confined ⟨.symlink,e.name,e.segments,e.target⟩ _ link
    exact ⟨fun ne => ⟨ne,noted.symlinks e he two⟩,relative,confined⟩
  case hardlinks =>
    intro entry hm kind
    obtain ⟨e,he,rfl⟩ := mem_map.1 hm
    have other : e.type ≠ '2' := fun two => by simp [Accepted.entry,entryKind,two] at kind
    have one : e.type = '1' := by
      by_contra no
      simp only [Accepted.entry,entryKind,other,no,if_false] at kind
      split at kind
      case isTrue => cases kind
      case isFalse => cases kind
    have link := links _ (noted.links e he (.inl one))
    simp only [other,if_false] at link
    obtain ⟨relative,confined,plain⟩ := @link_confined ⟨.hardlink,e.name,e.segments,e.target⟩ _ link
    exact ⟨relative,confined,plain rfl⟩

def linkStart (root : List Text) (e : Entry Text) : List Text :=
  if e.kind = .symlink then root++e.path.dropLast else root

/-- However the accepted entries are unpacked in an empty directory, all that is made is inside it,
and so is wherever a link leads. -/
theorem archive_contained {utf8 : List UInt8 → Text} {limits : Limits} {events : List Event}
    {n : Nat} {total : Number} {root : List Text} {w w' : World Text}
    (ok : (archiveScanner utf8 limits events).verdict = some (.ok n total))
    (dir : w.fs root = some .dir) (empty : ∀ s,s ≠ [] → w.fs (root++s) = none) (made : w.made = [])
    (run : ReflTransGen (Unpack root
      ((archiveScanner utf8 limits events).accepted.map Accepted.entry)) w w') :
    (∀ p ∈ w'.made,∃ s,s ≠ [] ∧ p = root++s) ∧
    ∀ e ∈ (archiveScanner utf8 limits events).accepted.map Accepted.entry,
      e.kind = .symlink ∨ e.kind = .hardlink → e.target.absolute = false ∧
      ∀ st,Walk w'.fs ⟨linkStart root e,e.target.comps⟩ st → ∃ s,st.at_ = root++s := by
  obtain ⟨noted,crossed⟩ := scanner_noted ok
  have checked := accepted_checked noted crossed
  have ends := unpack_contained checked (empty_contained dir empty made) run
  refine ⟨ends.made,fun e he link => ?_⟩
  cases link with
  | inl kind =>
    obtain ⟨-,relative,confined⟩ := checked.symlinks e he kind
    refine ⟨relative,fun st walk => ?_⟩
    simp only [linkStart,kind,if_true] at walk
    obtain ⟨s,at',-⟩ := walk.confined ends.kept confined
    exact ⟨s,at'⟩
  | inr kind =>
    obtain ⟨relative,confined,-⟩ := checked.hardlinks e he kind
    refine ⟨relative,fun st walk => ?_⟩
    have start : linkStart root e = root++[] := by simp [linkStart,kind]
    rw [start] at walk
    obtain ⟨s,at',-⟩ := walk.confined ends.kept confined
    exact ⟨s,at'⟩

def oneLink : List Event :=
  [.data (tarHeader "l".toList "0".toList '2' "d/f".toList++endBlocks)]

/-- An empty directory `bundle`. -/
def emptyBundle : World Text := ⟨fun p => if p = ["bundle".toList] then some .dir else none,[]⟩

def linkEntry : Entry Text := ⟨.symlink,["l".toList],targetOf "d/f".toList⟩

set_option maxRecDepth 8000 in
theorem archive_contained_link :
    let w' := emptyBundle.put ["bundle".toList,"l".toList] (.link linkEntry.target)
    (∀ p ∈ w'.made,∃ s,s ≠ [] ∧ p = ["bundle".toList]++s) ∧
    ∀ e ∈ (archiveScanner latin1 archiveLimits oneLink).accepted.map Accepted.entry,
      e.kind = .symlink ∨ e.kind = .hardlink → e.target.absolute = false ∧
      ∀ st,Walk w'.fs ⟨linkStart ["bundle".toList] e,e.target.comps⟩ st →
        ∃ s,st.at_ = ["bundle".toList]++s := by
  have mem : linkEntry ∈ (archiveScanner latin1 archiveLimits oneLink).accepted.map
      Accepted.entry := by
    refine mem_map.2 ⟨⟨'2',"l".toList,["l".toList],"d/f".toList,
      filled 12 (bytesOf "0".toList),none⟩,?_,rfl⟩
    decide
  have nothing : ∀ s,s ≠ [] → emptyBundle.fs (["bundle".toList]++s) = none := fun s hs =>
    if_neg fun h => hs (append_cancel_left (h.trans (append_nil _).symm))
  have room : emptyBundle.fs (["bundle".toList]++["l".toList]) ≠ some .dir := by
    rw [nothing _ (cons_ne_nil _ _)]
    exact nofun
  exact @archive_contained latin1 archiveLimits oneLink 1 (some 0) ["bundle".toList] emptyBundle _
    (by decide) rfl nothing rfl
    (.single (@Unpack.symlink _ _ _ _ emptyBundle linkEntry [] _ _ mem rfl rfl .refl room))

end CircuitBreaker.ArchiveCheck
