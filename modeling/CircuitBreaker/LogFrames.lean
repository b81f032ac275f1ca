import CircuitBreaker.SpoolQueue

/-! The codec of the simplest data frames: `log` frames with an empty payload and
one timestamp, told apart by their sequence numbers. -/

namespace CircuitBreaker.SpoolQueue
open ByteLines

def asciiBytes (s : String) : Bytes := s.toList.map digitByte

def logOpening : Bytes := asciiBytes "\x7b\"v\":1,\"type\":\"log\",\"seq\":"
def logClosing : Bytes := asciiBytes ",\"ts\":\"2026-01-01T00:00:00Z\",\"payload\":\x7b\x7d\x7d"

def logText (seq : Nat) : Bytes := logOpening ++ (itoa seq ++ logClosing)

def encodeLog (seq : Nat) : Option Bytes := if seq < 2^64 then some (logText seq) else none

def decodeLog (line : Bytes) : Option Nat :=
  (parseDigits ((line.drop logOpening.length).takeWhile isDigitByte)).bind fun seq =>
    if encodeLog seq = some line then some seq else none

theorem decodeLog_logText {seq : Nat} (h : seq < 2^64) : decodeLog (logText seq) = some seq := by
  have hall : ∀ b ∈ itoa seq, isDigitByte b = true := fun b hb => isDigitByte_of_mem_itoa hb
  have hclose : logClosing.takeWhile isDigitByte = [] := by decide
  have htake : (itoa seq ++ logClosing).takeWhile isDigitByte = itoa seq := by
    rw [List.takeWhile_append_of_pos hall,hclose,List.append_nil]
  have hdrop : (logText seq).drop logOpening.length = itoa seq ++ logClosing := by
    simp [logText]
  have encoded : encodeLog seq = some (logText seq) := if_pos h
  simp [decodeLog,hdrop,htake,parseDigits_itoa,encoded]

theorem logText_newline_free (seq : Nat) :
    newline ∉ logText seq ∧ (logText seq).getLast? ≠ some carriageReturn := by
  constructor
  · have hopen : newline ∉ logOpening := by decide
    have hclose : newline ∉ logClosing := by decide
    have hdigits : newline ∉ itoa seq := fun h => absurd (isDigitByte_of_mem_itoa h) (by decide)
    simp [logText,hopen,hclose,hdigits]
  · have hne : logClosing ≠ [] := by decide
    have hlast : logClosing.getLast? ≠ some carriageReturn := by decide
    rw [logText,← List.append_assoc,List.getLast?_append_of_ne_nil _ hne]
    exact hlast

def signed (i : Int) : List Nat := [i.toNat,(-i).toNat]

def EvictionStats.numbers (e : EvictionStats) : List Nat :=
  e.frames :: (signed e.bytes ++ signed e.oldestDroppedTS ++ signed e.newestDroppedTS ++
    signed e.lastEvictedAt ++ e.lastDestroyedCause.toList.length ::
      (e.lastDestroyedCause.toList ++ e.lastDestroyedReason.toList).map Char.toNat)

def EvictionStats.ofNumbers : List Nat → Option EvictionStats
  | frames :: b :: b' :: o :: o' :: n :: n' :: l :: l' :: k :: chars =>
      some ⟨frames,(b : Int)-b',(o : Int)-o',(n : Int)-n',(l : Int)-l',
        String.ofList ((chars.take k).map Char.ofNat),String.ofList ((chars.drop k).map Char.ofNat)⟩
  | _ => none

theorem EvictionStats.ofNumbers_numbers (e : EvictionStats) : ofNumbers e.numbers = some e := by
  have hs (i : Int) : ((i.toNat : Int)-((-i).toNat : Int)) = i := by omega
  have hc (cs : List Char) : (cs.map Char.toNat).map Char.ofNat = cs := by
    simp [Function.comp_def,Char.ofNat_toNat]
  cases e
  simp only [numbers,signed,ofNumbers,List.cons_append,List.nil_append,hs,List.map_append,
    Option.some.injEq,EvictionStats.mk.injEq,true_and]
  have ht (cs ds : List Char) : (cs.map Char.toNat ++ ds.map Char.toNat).take cs.length =
      cs.map Char.toNat := List.take_left' (by simp)
  have hd (cs ds : List Char) : (cs.map Char.toNat ++ ds.map Char.toNat).drop cs.length =
      ds.map Char.toNat := List.drop_left' (by simp)
  exact ⟨by rw [ht,hc,String.ofList_toList],by rw [hd,hc,String.ofList_toList]⟩

def readNumbers : List Bytes → Option (List Nat)
  | [] => some []
  | line :: rest => (parseDigits line).bind fun n => (readNumbers rest).map (n :: ·)

theorem readNumbers_map_itoa (ns : List Nat) : readNumbers (ns.map itoa) = some ns := by
  induction ns with
  | nil => rfl
  | cons n ns ih => simp [readNumbers,parseDigits_itoa,ih]

def logCodec : Codec Nat where
  encode := encodeLog
  decode := decodeLog
  ts := fun _ => 63902822400000000000
  encodeStats := fun e => unlines (e.numbers.map itoa)
  decodeStats := fun b => (readNumbers (rawLines b)).bind EvictionStats.ofNumbers
  decode_encode := by
    intro seq b h
    simp only [encodeLog] at h
    split at h
    · rename_i hlt
      obtain rfl := Option.some.inj h
      exact ⟨seq,decodeLog_logText hlt,if_pos hlt⟩
    · exact nomatch h
  newline_free := by
    intro seq b h
    simp only [encodeLog] at h
    split at h
    · obtain rfl := Option.some.inj h
      exact logText_newline_free seq
    · exact nomatch h
  decodeStats_encodeStats := by
    intro e
    have hl : ∀ l ∈ e.numbers.map itoa, newline ∉ l := by
      intro l hl hm
      obtain ⟨n,-,rfl⟩ := List.mem_map.mp hl
      exact absurd (isDigitByte_of_mem_itoa hm) (by decide)
    simp only [rawLines_unlines _ hl,readNumbers_map_itoa,Option.bind_some,
      EvictionStats.ofNumbers_numbers]

end CircuitBreaker.SpoolQueue
