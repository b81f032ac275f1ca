import CircuitBreaker.ByteLines

/-! A text that is read in chunks: its lines, its first and its last bytes, and its characters. -/

namespace ChunkedLines
open ByteLines List

/-- The lines that have ended, and what follows the last newline. -/
def cutLines : Bytes → List Bytes × Bytes
  | [] => ([],[])
  | b::bs =>
    if b = newline then ([]::(cutLines bs).1,(cutLines bs).2)
    else
      match (cutLines bs).1 with
      | [] => ([],b::(cutLines bs).2)
      | l::ls => ((b::l)::ls,(cutLines bs).2)

theorem cutLines_newline (bs : Bytes) :
    cutLines (newline::bs) = ([]::(cutLines bs).1,(cutLines bs).2) :=
  if_pos rfl

theorem cutLines_byte {b : UInt8} {bs : Bytes} (h : b ≠ newline) :
    cutLines (b::bs) =
      match (cutLines bs).1 with
      | [] => ([],b::(cutLines bs).2)
      | l::ls => ((b::l)::ls,(cutLines bs).2) :=
  if_neg h

/-- What follows is cut with what was left over. -/
theorem cutLines_append (a b : Bytes) :
    cutLines (a++b) =
      ((cutLines a).1++(cutLines ((cutLines a).2++b)).1,(cutLines ((cutLines a).2++b)).2) := by
  induction a with
  | nil => rfl
  | cons c a ih =>
    rw [cons_append]
    by_cases hc : c = newline
    · rw [hc,cutLines_newline,cutLines_newline,ih]
      rfl
    · rw [cutLines_byte hc,cutLines_byte hc,ih]
      cases hl : (cutLines a).1 with
      | nil =>
        rw [nil_append]
        exact (cutLines_byte hc).symm
      | cons l ls => rfl

theorem cutLines_plain {l : Bytes} (h : newline ∉ l) : cutLines l = ([],l) := by
  induction l with
  | nil => rfl
  | cons b l ih =>
    have hb : b ≠ newline := fun e => h (by simp [e])
    rw [cutLines_byte hb,ih fun m => h (mem_cons_of_mem _ m)]

theorem cutLines_line {l : Bytes} (rest : Bytes) (h : newline ∉ l) :
    cutLines (l++newline::rest) = (l::(cutLines rest).1,(cutLines rest).2) := by
  induction l with
  | nil => exact cutLines_newline rest
  | cons b l ih =>
    have hb : b ≠ newline := fun e => h (by simp [e])
    rw [cons_append,cutLines_byte hb,ih fun m => h (mem_cons_of_mem _ m)]

theorem cutLines_unlines {ls : List Bytes} (rest : Bytes) (h : ∀ l ∈ ls, newline ∉ l) :
    cutLines (unlines ls++rest) = (ls++(cutLines rest).1,(cutLines rest).2) := by
  induction ls with
  | nil => rfl
  | cons l ls ih =>
    have text : unlines (l::ls)++rest = l++newline::(unlines ls++rest) := by simp [unlines]
    rw [text,cutLines_line _ (h l (by simp)),ih fun m hm => h m (mem_cons_of_mem _ hm)]
    rfl

/-! The first and the last bytes. -/

/-- A window on the first `n` bytes, with more bytes. -/
def grow (n : Nat) (seen out : Bytes) : Bytes :=
  if seen.length < n then seen++out.take (n-seen.length) else seen

theorem grow_take (n : Nat) (a b : Bytes) : grow n (a.take n) b = (a++b).take n := by
  unfold grow
  rw [take_append,length_take]
  split
  case isTrue short => rw [Nat.min_eq_right (by omega)]
  case isFalse full =>
    have none : n-a.length = 0 := by omega
    rw [none,take_zero,append_nil]

def lastBytes (n : Nat) (t : Bytes) : Bytes := t.drop (t.length-n)

theorem lastBytes_append (n : Nat) (a b : Bytes) : lastBytes n (lastBytes n a++b) = lastBytes n (a++b) := by
  unfold lastBytes
  by_cases fits : a.length ≤ n
  · rw [Nat.sub_eq_zero_of_le fits,drop_zero]
  · have join : a.drop (a.length-n)++b = (a++b).drop (a.length-n) :=
      (drop_append_of_le_length (by omega)).symm
    rw [join,drop_drop]
    congr 1
    simp only [length_drop,length_append]
    omega

/-! UTF-8, with a replacement character for each sequence of bytes that does not go on. -/

/-- A sequence that has begun: its value so far, how many bytes are to come, and what the next may be. -/
structure Begun where
  value : Nat
  left : Nat
  low : Nat
  high : Nat

inductive Lead where
  | char (c : Char)
  | begun (q : Begun)
  | bad

def replacement : Char := Char.ofNat 0xFFFD

def lead (b : UInt8) : Lead :=
  let n := b.toNat
  if n < 0x80 then .char (Char.ofNat n)
  else if n < 0xC2 then .bad
  else if n < 0xE0 then .begun ⟨n-0xC0,1,0x80,0xBF⟩
  else if n < 0xF0 then
    .begun ⟨n-0xE0,2,if n = 0xE0 then 0xA0 else 0x80,if n = 0xED then 0x9F else 0xBF⟩
  else if n < 0xF5 then
    .begun ⟨n-0xF0,3,if n = 0xF0 then 0x90 else 0x80,if n = 0xF4 then 0x8F else 0xBF⟩
  else .bad

/-- A sequence with one more byte, where the byte goes on with it. -/
def goesOn (q : Option Begun) (b : UInt8) : Option Begun :=
  q.bind fun q =>
    if q.low ≤ b.toNat ∧ b.toNat ≤ q.high then some ⟨64*q.value+(b.toNat-0x80),q.left-1,0x80,0xBF⟩
    else none

/-- A sequence that is given up. -/
def givenUp (q : Option Begun) : List Char := if q.isSome then [replacement] else []

def decodeFrom : Bytes → Option Begun → List Char
  | [],q => givenUp q
  | b::bs,q =>
    match goesOn q b with
    | some q => if q.left = 0 then Char.ofNat q.value :: decodeFrom bs none else decodeFrom bs (some q)
    | none =>
      givenUp q++
        match lead b with
        | .char c => c::decodeFrom bs none
        | .begun q => decodeFrom bs (some q)
        | .bad => replacement::decodeFrom bs none

/-- `bytes.decode("utf-8", "replace")` -/
def decode (bs : Bytes) : List Char := decodeFrom bs none

/-- The bytes of an ASCII text. -/
def ascii (t : List Char) : Bytes := t.map fun c => UInt8.ofNat c.toNat

theorem decode_ascii {t : List Char} (h : ∀ c ∈ t, c.toNat < 128) : decode (ascii t) = t := by
  induction t with
  | nil => rfl
  | cons c t ih =>
    have hc : c.toNat < 128 := h c (by simp)
    have byte : (UInt8.ofNat c.toNat).toNat = c.toNat := Nat.mod_eq_of_lt (by omega)
    have leads : lead (UInt8.ofNat c.toNat) = .char c := by
      unfold lead
      rw [byte]
      simp only [hc,if_true,Char.ofNat_toNat]
    have rest := ih fun d hd => h d (mem_cons_of_mem _ hd)
    unfold decode ascii at rest ⊢
    simp only [map_cons,decodeFrom,goesOn,Option.bind_none,leads,rest]
    rfl

end ChunkedLines
