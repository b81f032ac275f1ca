import CircuitBreaker.ArchiveTurns

/-! What the scan counts of an archive: the sizes its entries state, and the bytes it skips for
them. -/

namespace CircuitBreaker.ArchiveCheck
open List

def owed (utf8 : List UInt8 → Text) (e : Accepted) : Nat := ((skipOf utf8 e).getD 0).toNat

def debt (s : Scan) : Nat := if s.forEntry then (s.skip.getD 0).toNat else 0

theorem credit_zero {l : List Nat} (h : l ≠ []) : credit l 0 = l := by
  rw [credit,getLastD_eq_getLast?,getLast?_eq_some_getLast h]
  exact dropLast_append_getLast h

theorem credit_concat (l : List Nat) (k n : Nat) : credit (l++[k]) n = l++[k+n] := by
  simp [credit]

theorem credit_credit (l : List Nat) (n m : Nat) : credit (credit l n) m = credit l (n+m) := by
  have last : credit l n = l.dropLast++[l.getLastD 0+n] := rfl
  rw [last,credit_concat,credit,Nat.add_assoc]

structure Totals (utf8 : List UInt8 → Text) (limits : Limits) (s : Scan) : Prop where
  entries : s.entries = s.accepted.length
  fewEntries : s.entries ≤ limits.maxEntries
  total : s.totalBytes = s.accepted.foldl (totalWith utf8) (some 0)
  fewBytes : ∀ n,s.totalBytes = some n → n ≤ limits.maxTotalBytes

structure Counted (utf8 : List UInt8 → Text) (limits : Limits) (s : Scan) : Prop where
  totals : Totals utf8 limits s
  payloads : (s.accepted = [] ∧ s.payloads = [] ∧ s.forEntry = false) ∨
    (s.payloads ≠ [] ∧ credit s.payloads (debt s) = s.accepted.map (owed utf8))

section

variable {utf8 : List UInt8 → Text} {limits : Limits} {s t : Scan}

theorem debt_over (idle : positive s.skip = false) : debt s = 0 := by
  unfold debt
  cases hk : s.skip with
  | none => simp
  | some k =>
    have low : k.toNat = 0 := by
      simp only [hk,positive,decide_eq_false_iff_not] at idle
      omega
    simp [low]

theorem Totals.same (h : Totals utf8 limits s) (books : SameBooks s t) : Totals utf8 limits t := by
  obtain ⟨entries,totalBytes,-,-,-,accepted⟩ := books
  refine ⟨?_,?_,?_,?_⟩
  · rw [entries,accepted,h.entries]
  · rw [entries]
    exact h.fewEntries
  · rw [totalBytes,accepted,h.total]
  · rw [totalBytes]
    exact h.fewBytes

theorem Counted.settled (h : Counted utf8 limits s) (idle : positive s.skip = false) :
    s.payloads = s.accepted.map (owed utf8) := by
  cases h.payloads with
  | inl none => rw [none.1,none.2.1,map_nil]
  | inr some =>
    rw [←some.2,debt_over idle,credit_zero some.1]

theorem Counted.skipped {k : Int} {n : Nat} (h : Counted utf8 limits s) (skip : s.skip = some k)
    (pos : 0 < k) (few : n ≤ k) (books : SameBooks s t) (left : t.skip = some (k-n))
    (payloads : t.payloads = if s.forEntry then credit s.payloads n else s.payloads)
    (forEntry : t.forEntry = s.forEntry) : Counted utf8 limits t := by
  refine ⟨h.totals.same books,?_⟩
  cases h.payloads with
  | inl none =>
    rw [books.accepted,payloads,forEntry]
    simp [none]
  | inr some =>
    obtain ⟨some,same⟩ := some
    right
    rw [books.accepted,←same,payloads]
    by_cases own : s.forEntry = true
    · have sum : n+debt t = debt s := by
        simp only [debt,forEntry,own,left,skip,if_true,Option.getD_some]
        omega
      simp only [own,if_true]
      exact ⟨by simp [credit],by rw [credit_credit,sum]⟩
    · have none : debt t = 0 ∧ debt s = 0 := by simp [debt,forEntry,own]
      simp only [own,Bool.false_eq_true,if_false]
      exact ⟨some,by rw [none.1,none.2]⟩

theorem Counted.read (h : Counted utf8 limits s) (idle : positive s.skip = false)
    (books : SameBooks s t) (payloads : t.payloads = s.payloads)
    (other : t.forEntry = false ∨ t.skip = s.skip ∧ t.forEntry = s.forEntry) :
    Counted utf8 limits t := by
  have none : debt t = 0 := by
    cases other with
    | inl out => simp [debt,out]
    | inr same => exact debt_over (same.1 ▸ idle)
  refine ⟨h.totals.same books,?_⟩
  cases h.payloads with
  | inl empty =>
    refine .inl ⟨books.accepted.trans empty.1,payloads.trans empty.2.1,?_⟩
    cases other with
    | inl out => exact out
    | inr same => exact same.2.trans empty.2.2
  | inr some =>
    right
    rw [books.accepted,payloads,none,←some.2,debt_over idle]
    exact ⟨some.1,rfl⟩

theorem Counted.entered {e : Accepted} (h : Counted utf8 limits s) (idle : positive s.skip = false)
    (books : Entered utf8 limits s t e) : Counted utf8 limits t := by
  have accepted : t.accepted = s.accepted++[e] := books.accepted
  have payloads : t.payloads = s.payloads++[0] := books.payloads
  have owes : debt t = owed utf8 e := by
    unfold debt owed
    rw [books.forEntry,books.skip]
    rfl
  refine ⟨?_,?_⟩
  case refine_2 =>
    right
    rw [payloads,accepted,owes,credit_concat,map_append,h.settled idle,Nat.zero_add]
    exact ⟨by simp,rfl⟩
  constructor
  case entries => rw [books.entries,h.totals.entries,accepted,length_append,length_singleton]
  case fewEntries => exact books.fewEntries
  case total => rw [books.totalBytes,h.totals.total,accepted,foldl_append,foldl_cons,foldl_nil]
  case fewBytes =>
    by_cases file : e.type ∈ fileTypes
    · exact books.fewBytes file
    · have same : t.totalBytes = s.totalBytes := by simp [books.totalBytes,totalWith,file]
      rw [same]
      exact h.totals.fewBytes

theorem scanner_counted {events : List Event} {n : Nat} {total : Number}
    (ok : (archiveScanner utf8 limits events).verdict = some (.ok n total)) :
    let s := archiveScanner utf8 limits events
    Totals utf8 limits s ∧ s.payloads = s.accepted.map (owed utf8) ∧ n = s.entries ∧
      total = s.totalBytes := by
  have whole := @scanner_rule utf8 limits (Counted utf8 limits) (fun s => Totals utf8 limits s ∧
    s.payloads = s.accepted.map (owed utf8) ∧ s.verdict = some (.ok s.entries s.totalBytes))
    ⟨⟨rfl,Nat.zero_le _,rfl,fun n hn => by cases hn; omega⟩,.inl ⟨rfl,rfl,rfl⟩⟩
    (fun s buffer h => ⟨h.totals.same ⟨rfl,rfl,rfl,rfl,rfl,rfl⟩,h.payloads⟩)
    (fun s buffer h => ⟨h.1.same ⟨rfl,rfl,rfl,rfl,rfl,rfl⟩,h.2⟩)
    (fun s t _ h turned => ?_) events n total ok
  · obtain ⟨totals,payloads,verdict⟩ := whole
    rw [ok] at verdict
    obtain ⟨rfl,rfl⟩ := Verdict.ok.inj (Option.some.inj verdict)
    exact ⟨totals,payloads,rfl,rfl⟩
  · cases turned with
    | skipped k n skip pos few books going left payloads forEntry =>
      exact ⟨fun _ => h.skipped skip pos few books left payloads forEntry,fun _ _ ok => by
        simp [going] at ok⟩
    | read idle books going payloads other =>
      exact ⟨fun _ => h.read idle books payloads other,fun _ _ ok => by simp [going] at ok⟩
    | entered e idle books going =>
      exact ⟨fun _ => h.entered idle books,fun _ _ ok => by simp [going] at ok⟩
    | refused reason verdict =>
      exact ⟨fun none => by simp [verdict] at none,fun _ _ ok => by simp [verdict] at ok⟩
    | confirmed idle books checked verdict payloads =>
      refine ⟨fun none => by simp [verdict] at none,fun _ _ _ => ⟨h.totals.same books,?_,?_⟩⟩
      · rw [payloads,books.accepted,h.settled idle]
      · rw [verdict,books.entries,books.totalBytes]

/-! ### What the claims of an archive are worth -/

def roundUp (n : Nat) : Nat := (n+511)/512*512

/-- Every size is a number, the total is that of the files, and exactly what each entry states was
skipped for it. -/
structure Accounted (utf8 : List UInt8 → Text) (limits : Limits) (s : Scan) (entries : Nat)
    (total : Number) : Prop where
  sizes : ∀ e ∈ s.accepted,∃ n : Nat,e.size utf8 = some (n : Int)
  total : ∃ n : Int,total = some n ∧ n ≤ limits.maxTotalBytes ∧
    n = ((s.accepted.filter fun e => e.type ∈ fileTypes).map fun e => (e.size utf8).getD 0).sum
  entries : entries = s.accepted.length ∧ entries ≤ limits.maxEntries
  payloads : List.Forall₂ (fun e p => ∃ n : Nat,e.size utf8 = some (n : Int) ∧ p = roundUp n)
    s.accepted s.payloads

theorem owed_file {e : Accepted} {n : Nat} (file : e.type ∈ fileTypes)
    (size : e.size utf8 = some (n : Int)) : owed utf8 e = roundUp n := by
  simp only [owed,skipOf,file,if_true,size,padding,Option.bind_some,Option.map_some,
    Option.getD_some,roundUp]
  have whole : ((n : Int).tmod 512) = ((n%512 : Nat) : Int) := by
    rw [Int.tmod_eq_emod_of_nonneg (by omega)]
    rfl
  rw [whole,Int.tmod_eq_emod_of_nonneg (by omega)]
  omega

theorem owed_other {e : Accepted} (other : e.type ∉ fileTypes) : owed utf8 e = 0 := by
  simp [owed,skipOf,other]

theorem roundUp_zero {n : Nat} : roundUp n = 0 ↔ n = 0 := by
  unfold roundUp
  omega

theorem total_sum {l : List Accepted} {k : Int}
    (h : ∀ e ∈ l,∃ n : Nat,e.size utf8 = some (n : Int)) :
    l.foldl (totalWith utf8) (some k) = some (k+
      ((l.filter fun e => e.type ∈ fileTypes).map fun e => (e.size utf8).getD 0).sum) := by
  induction l generalizing k with
  | nil => simp
  | cons e l ih =>
    obtain ⟨n,hn⟩ := h e mem_cons_self
    have rest := fun k => @ih k fun a ha => h a (mem_cons_of_mem _ ha)
    by_cases file : e.type ∈ fileTypes
    · simp [totalWith,file,hn,rest,Int.add_assoc]
    · simp [totalWith,file,rest]

/-- The sizes of an accepted archive are accounted for exactly when each is a natural number, and
0 for what is no file. -/
theorem sizes_accounted_iff {events : List Event} {entries : Nat} {total : Number}
    (ok : (archiveScanner utf8 limits events).verdict = some (.ok entries total)) :
    Accounted utf8 limits (archiveScanner utf8 limits events) entries total ↔
      ∀ e ∈ (archiveScanner utf8 limits events).accepted,
        ∃ n : Nat,e.size utf8 = some (n : Int) ∧ (e.type ∉ fileTypes → n = 0) := by
  obtain ⟨totals,payloads,counted,sum⟩ := scanner_counted ok
  constructor
  · intro h e he
    have each := h.payloads
    rw [payloads,forall₂_map_right_iff,forall₂_same] at each
    obtain ⟨n,hn,skipped⟩ := each e he
    refine ⟨n,hn,fun other => roundUp_zero.1 ?_⟩
    rw [←skipped,owed_other other]
  · intro h
    have sizes : ∀ e ∈ (archiveScanner utf8 limits events).accepted,
        ∃ n : Nat,e.size utf8 = some (n : Int) := fun e he => by
      obtain ⟨n,hn,-⟩ := h e he
      exact ⟨n,hn⟩
    have added := total_sum (k := 0) sizes
    rw [←totals.total,Int.zero_add] at added
    refine ⟨sizes,⟨_,sum.trans added,totals.fewBytes _ added,rfl⟩,
      ⟨counted.trans totals.entries,counted ▸ totals.fewEntries⟩,?_⟩
    rw [payloads,forall₂_map_right_iff,forall₂_same]
    intro e he
    obtain ⟨n,hn,zero⟩ := h e he
    refine ⟨n,hn,?_⟩
    by_cases file : e.type ∈ fileTypes
    · exact owed_file file hn
    · rw [owed_other file,zero file]
      rfl

end

def oneFile : List Event :=
  [.data (tarHeader "f".toList "3".toList '0' []++List.replicate 512 1++endBlocks)]

theorem sizes_accounted_iff_one :
    Accounted latin1 archiveLimits (archiveScanner latin1 archiveLimits oneFile) 1 (some 3) ↔
      ∀ e ∈ (archiveScanner latin1 archiveLimits oneFile).accepted,
        ∃ n : Nat,e.size latin1 = some (n : Int) ∧ (e.type ∉ fileTypes → n = 0) :=
  sizes_accounted_iff (by decide +kernel)

def nanFile : List Event :=
  [.data (tarHeader "f".toList "z".toList '0' []++endBlocks)]

/-- The archive is accepted, with a total that is no number and that no limit holds. -/
theorem nan_size_accepted :
    (archiveScanner latin1 archiveLimits nanFile).verdict = some (.ok 1 none) ∧
      ¬Accounted latin1 archiveLimits (archiveScanner latin1 archiveLimits nanFile) 1 none := by
  refine ⟨by decide +kernel,fun h => ?_⟩
  obtain ⟨n,hn,-⟩ := h.total
  cases hn

end CircuitBreaker.ArchiveCheck
