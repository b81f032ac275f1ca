import CircuitBreaker.ArchiveCheck

/-! What one turn of the scan can do, and that the scan takes all the turns it has. -/

namespace CircuitBreaker.ArchiveCheck

def skipOf (utf8 : List UInt8 → Text) (e : Accepted) : Number :=
  if e.type ∈ fileTypes then
    (e.size utf8).bind fun n => (padding (e.size utf8)).map fun pad => n+pad
  else some 0

def totalWith (utf8 : List UInt8 → Text) (total : Number) (e : Accepted) : Number :=
  if e.type ∈ fileTypes then total.bind fun n => (e.size utf8).map fun m => n+m else total

structure SameBooks (s t : Scan) : Prop where
  entries : t.entries = s.entries
  totalBytes : t.totalBytes = s.totalBytes
  symlinks : t.symlinks = s.symlinks
  seen : t.seen = s.seen
  links : t.links = s.links
  accepted : t.accepted = s.accepted

structure Entered (utf8 : List UInt8 → Text) (limits : Limits) (s t : Scan) (e : Accepted) :
    Prop where
  entries : t.entries = s.entries+1
  fewEntries : t.entries ≤ limits.maxEntries
  totalBytes : t.totalBytes = totalWith utf8 s.totalBytes e
  fewBytes : e.type ∈ fileTypes → ∀ n,t.totalBytes = some n → n ≤ limits.maxTotalBytes
  symlinks : t.symlinks = (s.note e).symlinks
  seen : t.seen = (s.note e).seen
  links : t.links = (s.note e).links
  accepted : t.accepted = (s.note e).accepted
  payloads : t.payloads = (s.note e).payloads
  skip : t.skip = skipOf utf8 e
  forEntry : t.forEntry = true
  inside : dotdot ∉ e.segments

inductive Turned (utf8 : List UInt8 → Text) (limits : Limits) (s t : Scan) : Prop where
  | skipped (k : Int) (n : Nat) (skip : s.skip = some k) (pos : 0 < k) (few : n ≤ k)
      (books : SameBooks s t) (going : t.verdict = none) (left : t.skip = some (k-n))
      (payloads : t.payloads = if s.forEntry then credit s.payloads n else s.payloads)
      (forEntry : t.forEntry = s.forEntry)
  | read (idle : positive s.skip = false) (books : SameBooks s t) (going : t.verdict = none)
      (payloads : t.payloads = s.payloads)
      (other : t.forEntry = false ∨ t.skip = s.skip ∧ t.forEntry = s.forEntry)
  | entered (e : Accepted) (idle : positive s.skip = false) (books : Entered utf8 limits s t e)
      (going : t.verdict = none)
  | refused (reason : Text) (verdict : t.verdict = some (.problem reason))
  | confirmed (idle : positive s.skip = false) (books : SameBooks s t)
      (checked : crossCheck s.symlinks s.seen s.links = none)
      (verdict : t.verdict = some (.ok s.entries s.totalBytes)) (payloads : t.payloads = s.payloads)

section

variable {utf8 : List UInt8 → Text} {limits : Limits} {s : Scan}

theorem fail_refused {s' : Scan} {reason : Text} (going : s'.verdict = none) :
    Turned utf8 limits s (s'.fail reason) :=
  .refused reason (by simp [Scan.fail,Scan.finish,going])

theorem splitName_inside {name : Text} {segments : List Text} (h : splitName name = .ok segments) :
    dotdot ∉ segments := by
  unfold splitName at h
  split at h
  case isTrue => cases h
  case isFalse =>
    simp only at h
    split at h <;> cases h
    rename_i inside
    exact inside

theorem enterEntry_cases {e : Accepted} {s' : Scan} (idle : positive s.skip = false)
    (entries : s'.entries = s.entries+1) (few : s'.entries ≤ limits.maxEntries)
    (books : SameBooks { s with entries := s.entries+1 } s') (payloads : s'.payloads = s.payloads)
    (going : s'.verdict = none) (inside : dotdot ∉ e.segments) :
    Turned utf8 limits s (enterEntry utf8 limits s' e).1 := by
  obtain ⟨-,totalBytes,symlinks,seen,links,accepted⟩ := books
  simp only at totalBytes symlinks seen links accepted
  unfold enterEntry
  simp only
  split
  case isTrue file =>
    split
    case isTrue =>
      refine fail_refused ?_
      exact going
    case isFalse small =>
      refine .entered e idle ?_ going
      constructor
      case entries => exact entries
      case fewEntries => exact few
      case totalBytes => simp [totalWith,file,Scan.note,totalBytes]
      case fewBytes =>
        intro _ n hn
        simp only at hn
        simpa [hn] using small
      case skip => simp [skipOf,file]
      case forEntry => rfl
      case inside => exact inside
      all_goals simp [Scan.note,symlinks,seen,links,accepted,payloads]
  case isFalse other =>
    refine .entered e idle ?_ going
    constructor
    case entries => exact entries
    case fewEntries => exact few
    case totalBytes => simp [totalWith,other,Scan.note,totalBytes]
    case fewBytes => exact fun file => absurd file other
    case skip => simp [skipOf,other]
    case forEntry => rfl
    case inside => exact inside
    all_goals simp [Scan.note,symlinks,seen,links,accepted,payloads]

theorem entryTurn_cases {header : List UInt8} {type : Char} {s' : Scan}
    (idle : positive s.skip = false) (books : SameBooks s s') (payloads : s'.payloads = s.payloads)
    (going : s'.verdict = none) : Turned utf8 limits s (entryTurn utf8 limits s' header type).1 := by
  obtain ⟨entries,totalBytes,symlinks,seen,links,accepted⟩ := books
  have counted : SameBooks { s with entries := s.entries+1 }
      { s' with
        pending := noPending
        entries := s'.entries+1 } :=
    ⟨congrArg (·+1) entries,totalBytes,symlinks,seen,links,accepted⟩
  unfold entryTurn
  split
  case isTrue =>
    refine fail_refused ?_
    exact going
  case isFalse =>
    split
    case isTrue =>
      refine fail_refused ?_
      exact going
    case isFalse =>
      simp only
      split
      case isTrue =>
        refine fail_refused ?_
        exact going
      case isFalse few =>
        split
        case h_1 =>
          refine fail_refused ?_
          exact going
        case h_2 segments named =>
          split
          case isTrue =>
            refine fail_refused ?_
            exact going
          case isFalse =>
            exact enterEntry_cases idle (congrArg (·+1) entries) (Nat.le_of_not_lt few) counted
              payloads going (splitName_inside named)

theorem headerTurn_cases {header : List UInt8} {s' : Scan} (idle : positive s.skip = false)
    (books : SameBooks s s') (skip : s'.skip = s.skip) (payloads : s'.payloads = s.payloads)
    (forEntry : s'.forEntry = s.forEntry) (going : s'.verdict = none) :
    Turned utf8 limits s (headerTurn utf8 limits s' header).1 := by
  obtain ⟨entries,totalBytes,symlinks,seen,links,accepted⟩ := books
  unfold headerTurn
  split
  case isTrue =>
    simp only
    split
    case isTrue =>
      split
      case h_1 =>
        refine fail_refused ?_
        exact going
      case h_2 checked =>
        rw [symlinks,seen,links] at checked
        refine .confirmed idle ⟨entries,totalBytes,symlinks,seen,links,accepted⟩ checked ?_ payloads
        simp [Scan.finish,going,entries,totalBytes]
    case isFalse =>
      exact .read idle ⟨entries,totalBytes,symlinks,seen,links,accepted⟩ going payloads
        (.inr ⟨skip,forEntry⟩)
  case isFalse =>
    simp only
    split
    case isTrue =>
      refine fail_refused ?_
      exact going
    case isFalse =>
      split
      case isTrue =>
        refine fail_refused ?_
        exact going
      case isFalse =>
        split
        case isTrue =>
          split
          case isTrue =>
            refine fail_refused ?_
            exact going
          case isFalse =>
            exact .read idle ⟨entries,totalBytes,symlinks,seen,links,accepted⟩ going payloads
              (.inr ⟨skip,forEntry⟩)
        case isFalse =>
          exact entryTurn_cases idle ⟨entries,totalBytes,symlinks,seen,links,accepted⟩ payloads going

theorem collectTurn_cases {c : Collect} (idle : positive s.skip = false) (going : s.verdict = none) :
    Turned utf8 limits s (collectTurn utf8 s c).1 := by
  unfold collectTurn
  simp only
  split
  case isTrue => exact .read idle ⟨rfl,rfl,rfl,rfl,rfl,rfl⟩ going rfl (.inr ⟨rfl,rfl⟩)
  case isFalse =>
    split
    case h_1 =>
      refine fail_refused ?_
      exact going
    case h_2 => exact .read idle ⟨rfl,rfl,rfl,rfl,rfl,rfl⟩ going rfl (.inl rfl)

theorem turn_cases (going : s.verdict = none) : Turned utf8 limits s (turn utf8 limits s).1 := by
  unfold turn
  split
  case isTrue pos =>
    cases hk : s.skip with
    | none => simp [hk,positive] at pos
    | some k =>
      have above : 0 < k := by simpa [hk,positive] using pos
      refine .skipped k (min k s.buffer.length).toNat hk above ?_ ⟨rfl,rfl,rfl,rfl,rfl,rfl⟩ going
        ?_ ?_ rfl
      · omega
      · simp
      · simp
  case isFalse idle =>
    have done : positive s.skip = false := by simpa using idle
    split
    case h_1 => exact collectTurn_cases done going
    case h_2 =>
      split
      case isTrue => exact .read done ⟨rfl,rfl,rfl,rfl,rfl,rfl⟩ going rfl (.inr ⟨rfl,rfl⟩)
      case isFalse => exact headerTurn_cases done ⟨rfl,rfl,rfl,rfl,rfl,rfl⟩ rfl rfl rfl going

/-! ### All the turns -/

theorem enterEntry_buffer (e : Accepted) : (enterEntry utf8 limits s e).1.buffer = s.buffer := by
  unfold enterEntry
  simp only
  split
  case isTrue =>
    split
    case isTrue => rfl
    case isFalse => rfl
  case isFalse => rfl

theorem entryTurn_buffer (header : List UInt8) (type : Char) :
    (entryTurn utf8 limits s header type).1.buffer = s.buffer := by
  unfold entryTurn
  split
  case isTrue => rfl
  case isFalse =>
    split
    case isTrue => rfl
    case isFalse =>
      simp only
      split
      case isTrue => rfl
      case isFalse =>
        split
        case h_1 => rfl
        case h_2 =>
          split
          case isTrue => rfl
          case isFalse => exact enterEntry_buffer _

theorem headerTurn_buffer (header : List UInt8) :
    (headerTurn utf8 limits s header).1.buffer = s.buffer := by
  unfold headerTurn
  split
  case isTrue =>
    simp only
    split
    case isTrue =>
      split
      case h_1 => rfl
      case h_2 => rfl
    case isFalse => rfl
  case isFalse =>
    simp only
    split
    case isTrue => rfl
    case isFalse =>
      split
      case isTrue => rfl
      case isFalse =>
        split
        case isTrue =>
          split
          case isTrue => rfl
          case isFalse => rfl
        case isFalse => exact entryTurn_buffer _ _

def weight (s : Scan) : Nat :=
  s.buffer.length+(if positive s.skip then 1 else 0)+(if s.collect.isSome then 2 else 0)

theorem weight_le (s : Scan) : weight s ≤ s.buffer.length+3 := by
  unfold weight
  split
  all_goals
    split
    all_goals omega

theorem weight_collected {s : Scan} (h : s.collect = none) : weight s ≤ s.buffer.length+1 := by
  unfold weight
  rw [h]
  split
  case isTrue => simp
  case isFalse => simp

theorem cutRemaining_shrinks (buffer : List UInt8) (remaining : Number) :
    (cutRemaining buffer remaining).2.1.length ≤ buffer.length := by
  unfold cutRemaining
  split
  case h_1 => exact le_rfl
  case h_2 => simp

theorem collectTurn_shrinks {c : Collect} (again : (collectTurn utf8 s c).2 = true) :
    (collectTurn utf8 s c).1.collect = none ∧
      (collectTurn utf8 s c).1.buffer.length ≤ s.buffer.length := by
  have shorter := cutRemaining_shrinks s.buffer c.remaining
  unfold collectTurn at again ⊢
  generalize cutRemaining s.buffer c.remaining = cut at again shorter ⊢
  obtain ⟨chunk,rest,remaining⟩ := cut
  by_cases left : positive remaining
  · simp [left] at again
  · simp only [left,Bool.false_eq_true,if_false] at again ⊢
    split at again
    case h_1 => cases again
    case h_2 => exact ⟨rfl,shorter⟩

theorem turn_shrinks (again : (turn utf8 limits s).2 = true) :
    weight (turn utf8 limits s).1 < weight s := by
  by_cases idle : positive s.skip = true
  · unfold turn at again ⊢
    simp only [idle,if_true] at again ⊢
    have done := again
    simp only [Bool.not_eq_true'] at done
    simp only [weight,done,idle,List.length_drop,Bool.false_eq_true,if_false,if_true]
    omega
  · cases hc : s.collect with
    | some c =>
      have same : turn utf8 limits s = collectTurn utf8 s c := by simp [turn,idle,hc]
      rw [same] at again ⊢
      obtain ⟨collected,shorter⟩ := collectTurn_shrinks again
      have light := weight_collected collected
      have heavy : s.buffer.length+2 ≤ weight s := by simp [weight,hc]
      omega
    | none =>
      by_cases short : s.buffer.length < 512
      · simp [turn,idle,hc,short] at again
      · have same : turn utf8 limits s = headerTurn utf8 limits
            { s with buffer := s.buffer.drop 512 } (s.buffer.take 512) := by
          simp [turn,idle,hc,short]
        rw [same]
        have light := weight_le (headerTurn utf8 limits
          { s with buffer := s.buffer.drop 512 } (s.buffer.take 512)).1
        rw [headerTurn_buffer] at light
        simp only [List.length_drop] at light
        have heavy : s.buffer.length ≤ weight s := by
          unfold weight
          omega
        omega

theorem spin_enough {n : Nat} (h : weight s < n) (k : Nat) :
    spin utf8 limits (n+k) s = spin utf8 limits n s := by
  induction n generalizing s with
  | zero => omega
  | succ n ih =>
    rw [Nat.add_right_comm]
    unfold spin
    split
    case isTrue => rfl
    case isFalse =>
      cases ht : turn utf8 limits s with
      | mk s' more =>
        cases more with
        | false => rfl
        | true =>
          have lighter := @turn_shrinks utf8 limits s (by rw [ht])
          rw [ht] at lighter
          exact ih (by simp only at lighter; omega)

theorem onEvent_whole (chunk : List UInt8) (k : Nat) :
    onEvent utf8 limits s (.data chunk) =
      spin utf8 limits ((s.buffer++chunk).length+4+k) { s with buffer := s.buffer++chunk } := by
  refine (spin_enough ?_ k).symm
  unfold weight
  split
  all_goals
    split
    all_goals omega

theorem scanner_rule {going Q : Scan → Prop} (start : going newScan)
    (going_buffer : ∀ s buffer,going s → going { s with buffer := buffer })
    (Q_buffer : ∀ s buffer,Q s → Q { s with buffer := buffer })
    (step : ∀ s t,s.verdict = none → going s → Turned utf8 limits s t →
      (t.verdict = none → going t) ∧ ∀ n b,t.verdict = some (.ok n b) → Q t)
    (events : List Event) :
    ∀ n b,(archiveScanner utf8 limits events).verdict = some (.ok n b) →
      Q (archiveScanner utf8 limits events) := by
  have turns : ∀ n s,(s.verdict = none → going s) → (∀ n b,s.verdict = some (.ok n b) → Q s) →
      ((spin utf8 limits n s).verdict = none → going (spin utf8 limits n s)) ∧
        ∀ m b,(spin utf8 limits n s).verdict = some (.ok m b) → Q (spin utf8 limits n s) := by
    intro n
    induction n with
    | zero => exact fun s hg hq => ⟨hg,hq⟩
    | succ n ih =>
      intro s hg hq
      unfold spin
      split
      case isTrue => exact ⟨hg,hq⟩
      case isFalse on =>
        have hv : s.verdict = none := by simpa using on
        have next := step s _ hv (hg hv) (turn_cases hv)
        cases ht : turn utf8 limits s with
        | mk s' more =>
          rw [ht] at next
          cases more with
          | true => exact ih s' next.1 next.2
          | false => exact next
  have fails : ∀ (s : Scan) reason,(∀ n b,s.verdict = some (.ok n b) → Q s) →
      ((s.fail reason).verdict = none → going (s.fail reason)) ∧
        ∀ n b,(s.fail reason).verdict = some (.ok n b) → Q (s.fail reason) := by
    intro s reason hq
    cases hv : s.verdict with
    | none => simp [Scan.fail,Scan.finish,hv]
    | some v =>
      have same : s.fail reason = s := by
        cases s
        cases hv
        rfl
      rw [same]
      exact ⟨fun none => by simp [none] at hv,hq⟩
  suffices h : ((archiveScanner utf8 limits events).verdict = none →
      going (archiveScanner utf8 limits events)) ∧
      ∀ n b,(archiveScanner utf8 limits events).verdict = some (.ok n b) →
        Q (archiveScanner utf8 limits events) from h.2
  induction events using List.reverseRecOn with
  | nil => exact ⟨fun _ => start,nofun⟩
  | append_singleton events event ih =>
    rw [archiveScanner,List.foldl_append]
    change (((onEvent utf8 limits (archiveScanner utf8 limits events) event)).verdict = none → _) ∧ _
    cases event with
    | data chunk =>
      exact turns _ _ (fun hv => going_buffer _ _ (ih.1 hv)) fun n b hv => Q_buffer _ _ (ih.2 n b hv)
    | ended | error code => exact fails _ _ ih.2

end

end CircuitBreaker.ArchiveCheck
